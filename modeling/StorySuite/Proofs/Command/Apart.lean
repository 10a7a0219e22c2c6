import StorySuite.Proofs.Command.Again
import StorySuite.Proofs.Command.Reports
import StorySuite.Proofs.Files.Removed
import StorySuite.Proofs.Story.Edits

/-!
# Files that cannot be transformed

A file that is no text, or in which no default export of its own is found, gets an error of its own
in a build and changes nothing else: the build goes on as it would without this file.

* `Workspace.fault? w path`   what is wrong with such a file;
* `Build.Reported`            what becomes of a file, as it is at the start of the build;
* `Build.Beside`              a build in both trees, under way;
* `Build.Beside.report`, `Build.report_faulty`   one file, and `Build.Beside.reports` all of them;
* `BuildRequest.run_apart`    **a build is the build without these files, and their errors**.
-/

namespace StorySuite

open Workspace

/-- what is wrong with a file of which no test module can be made -/
def Workspace.fault? (w : Workspace) (path : Text) : Option Trouble :=
  match w.read path with
  | .error e => some ["Failed to read ".toList ++ path, e.message]
  | .ok t =>
    match MetaExport.all (Module.read path t) with
    | [] => some ["Failed to transform ".toList ++ path, (Failure.noMeta path).message]
    | _ :: _ => none

/-- the places of those files of a list that something is wrong with -/
def Workspace.faulty (w : Workspace) (files : List Text) : List (List Text) :=
  (files.filter fun f => (w.fault? f).isSome).map w.place

/-- a file holds `c` that did not hold it before -/
def Workspace.Changed (w w' : Workspace) (way : List Text) (c : Content) : Prop :=
  w'.stand? way = some (.file c) ∧ w.stand? way ≠ some (.file c)

theorem Workspace.Without.changed {gone : List (List Text × Content)} {w v w' v' : Workspace}
    (h : Without gone w v) (h' : Without gone w' v') (way : List Text) (c : Content) :
    w.Changed w' way c ↔ v.Changed v' way c := by
  unfold Changed
  by_cases hway : ∃ x ∈ gone, x.1 = way
  · obtain ⟨x, hx, rfl⟩ := hway
    rw [h.there x hx, h'.there x hx, h'.away x hx]
    exact ⟨fun hc => absurd hc.1 hc.2, fun hc => nomatch hc.1⟩
  · have hne : ∀ x ∈ gone, x.1 ≠ way := fun x hx he => hway ⟨x, hx, he⟩
    rw [h.same hne, h'.same hne]

namespace Build

/-- what becomes of a file, as it is in `w` -/
inductive Reported (p : Project) (r : BuildRequest) (root : Text) (w : Workspace) : Report → Prop
  /-- no test module can be made of it: there is an error, and nothing is printed -/
  | faulty {path : Text} {why : Trouble} (fault : w.fault? path = some why) :
      Reported p r root w ⟨path, [], ["error: ".toList ++ why.inline], .failed why⟩
  | written {path t : Text} {s : Story} (fine : w.fault? path = none) (source : w.read path = .ok t)
      (story : p.transform path t = .ok (.story s)) :
      Reported p r root w ⟨path, announcement r s path (Output.codePath path root r.outDir),
        s.findings.lines path r.verbose, .written⟩
  /-- its test module cannot be written: there is an error that says why -/
  | unwritten {path t : Text} {s : Story} (fine : w.fault? path = none)
      (source : w.read path = .ok t) (story : p.transform path t = .ok (.story s)) (e : WriteError) :
      Reported p r root w ⟨path, announcement r s path (Output.codePath path root r.outDir),
        s.findings.lines path r.verbose ++ ["error: ".toList ++ Trouble.inline e.causes], .failed e.causes⟩

variable {p : Project} {r : BuildRequest} {root : Text} {w w₀ v : Workspace}
  {gone : List (List Text × Content)} {files : List Text}

/-! ## one file -/

theorem report_faulty (p : Project) (r : BuildRequest) (root : Text) {path : Text} {why : Trouble}
    (hs : isStoryPath path = true) (h : w.fault? path = some why) : report p r root w path =
      (w, ⟨path, [], ["error: ".toList ++ why.inline], .failed why⟩) := by
  have hfile : file p r (.start w) path (Output.codePath path root r.outDir) =
      (.start w, .failed why) := by
    unfold file
    unfold fault? at h
    rw [show (Session.start w).workspace = w from rfl]
    cases hread : w.read path with
    | error e =>
      rw [hread] at h
      obtain rfl := Option.some.inj h
      rfl
    | ok t =>
      rw [hread] at h
      simp only at h
      split at h
      · next hall =>
        obtain rfl := Option.some.inj h
        have htransform : p.transform path t = .error (.noMeta path) := by
          have hid : isStoryFile path = true := (Bool.and_eq_true _ _ ▸ hs : _ ∧ _).2
          unfold Project.transform transform
          rw [if_pos hid, Story.ofModule_noMeta hall]
          rfl
        simp only [htransform]
      · cases h
  unfold report
  rw [hfile]
  rfl

theorem exists_story {path : Text} (hs : isStoryPath path = true) (h : w.fault? path = none) :
    ∃ t s, w.read path = .ok t ∧ p.transform path t = .ok (.story s) := by
  unfold fault? at h
  split at h
  · cases h
  · next t hread =>
    split at h
    · cases h
    · next e es hall =>
      have hid : isStoryFile path = true := (Bool.and_eq_true _ _ ▸ hs : _ ∧ _).2
      have hm : (Module.read path t).Regular := Module.regular_read path t
      obtain ⟨-, s, hmade, -⟩ := Story.ofModule_eq hm (e := e) (by rw [hall]; rfl) p.options.tags
        (p.titles.title path)
      refine ⟨t, s, hread, ?_⟩
      unfold Project.transform transform
      rw [if_pos hid, hmade]
      rfl

theorem report_story (root : Text) (hwrite : r.write = true) (hinteractive : r.interactive = false)
    {path t : Text} {s : Story} (hread : w.read path = .ok t)
    (htransform : p.transform path t = .ok (.story s)) :
    let code := Output.codePath path root r.outDir
    let lines := s.findings.lines path r.verbose
    report p r root w path = match w.writeStory s code with
      | (w', none) => (w', ⟨path, announcement r s path code, lines, .written⟩)
      | (w', some e) => (w', ⟨path, announcement r s path code,
          lines ++ ["error: ".toList ++ Trouble.inline e.causes], .failed e.causes⟩) := by
  intro code lines
  unfold report file
  rw [show (Session.start w).workspace = w from rfl, hread]
  simp only [htransform, deliver, hwrite, hinteractive, Bool.not_true, Bool.false_eq_true, if_false]
  rw [show (((Session.start w).tellAll (s.findings.lines path r.verbose)).printAll
    (announcement r s path (Output.codePath path root r.outDir))).workspace = w from rfl]
  show _ = match w.writeStory s (Output.codePath path root r.outDir) with
    | (w', none) => _
    | (w', some e) => _
  cases w.writeStory s (Output.codePath path root r.outDir) with
  | mk w' e => cases e <;> rfl

/-! ## where the files are -/

/-- the files that are found below a directory: each is there, at the end of a way below it -/
theorem exists_way (hw : w.root.Proper) (hroot : w.isDirectory root = true)
    (hscan : w.scan [root] r.search.excludes r.search.hidden = .ok files) {f : Text}
    (hf : f ∈ files) : root ≠ [] ∧ w.isFile f = true ∧ ∃ ns, ns ≠ [] ∧ (∀ n ∈ ns, Path.IsName n) ∧
      f = Entry.along root ns ∧ w.place f = w.place root ++ ns := by
  obtain ⟨way, es, hfind⟩ := isDirectory_iff.mp hroot
  obtain ⟨rfl, hg⟩ := find_found hfind
  obtain ⟨hne, ns, s, c, rfl, hn, hs, hway, hc⟩ := mem_scan hw hscan hf
  obtain rfl : s = .directory := Option.some.inj (hs.symm.trans (stand?_of_get? hg))
  obtain ⟨hplace, hstand⟩ := stand?_along hfind hn
  rw [hplace, hstand] at hc
  obtain ⟨e, he, hec⟩ := Option.map_eq_some_iff.mp hc
  exact ⟨hne, isFile_of_stand? (find_along hn hfind he)
    ((Entry.stand?_append hg ns).trans hc), ns, mt hway.mp (fun h => h rfl), hn, rfl, hplace⟩

theorem place_inj (hw : w.root.Proper) (hroot : w.isDirectory root = true)
    (hscan : w.scan [root] r.search.excludes r.search.hidden = .ok files) {f g : Text}
    (hf : f ∈ files) (hg : g ∈ files) (h : w.place f = w.place g) : f = g := by
  obtain ⟨-, -, ns, -, -, rfl, hns⟩ := exists_way hw hroot hscan hf
  obtain ⟨-, -, ms, -, -, rfl, hms⟩ := exists_way hw hroot hscan hg
  rw [List.append_cancel_left (hns.symm.trans (h.trans hms))]

/-- where the test module of a file goes: below the output directory -/
structure Below (w : Workspace) (r : BuildRequest) (code : Text) : Prop where
  codeWays : ∀ way ∈ w.through code, way ∈ w.through r.outDir ∨ w.place r.outDir <+: way
  mapWays : ∀ way ∈ w.through (Output.mapPath code), way ∈ w.through r.outDir ∨
    w.place r.outDir <+: way
  codePlace : w.place r.outDir <+: w.place code
  mapPlace : w.place r.outDir <+: w.place (Output.mapPath code)

theorem below_codePath (hne : root ≠ []) {ns : List Text} (hns : ns ≠ [])
    (hn : ∀ n ∈ ns, Path.IsName n) {f : Text} (hf : f = Entry.along root ns)
    (hs : isStoryPath f = true) : Below w r (Output.codePath f root r.outDir) := by
  have hcomponents : Path.components f = Path.components root ++ Path.names ns := by
    rw [hf, Entry.components_along hne hn]
  have hthrough : ∀ way ∈ w.through (Output.codePath f root r.outDir),
      way ∈ w.through r.outDir ∨ w.place r.outDir <+: way := by
    intro way hway
    rcases (mem_through_codePath r.outDir hne hns hcomponents).mp hway with h | ⟨ms, -, rfl⟩
    · exact Or.inl h
    · exact Or.inr (List.prefix_append _ _)
  have hplace : w.place (Output.codePath f root r.outDir) = w.place r.outDir ++ ns :=
    Output.place_below w.cwd hne hns hcomponents r.outDir
  obtain ⟨n, hname, -⟩ := exists_name hs
  have hn := Path.isName_of_fileName? hname
  obtain ⟨u, hu, hfront⟩ := Output.codePath_eq hname root r.outDir
  have hmap : Output.mapPath (u ++ n) = u ++ Output.mapPath n := List.append_assoc _ _ _
  have hcodePlace : w.place (u ++ n) = w.place u ++ [n] := Path.walk_front_name _ hfront hn
  have hmapPlace : w.place (u ++ Output.mapPath n) = w.place u ++ [Output.mapPath n] :=
    Path.walk_front_name _ hfront (Output.isName_mapPath hn)
  have hbelow : w.place r.outDir <+: w.place (u ++ Output.mapPath n) := by
    -- the last name of the way is that of the file
    obtain ⟨ms, m, rfl⟩ := List.eq_nil_or_concat ns |>.resolve_left hns
    rw [hu, hcodePlace, List.concat_eq_append, ← List.append_assoc] at hplace
    rw [hmapPlace, (append_singleton_inj hplace).1, List.append_assoc]
    exact List.prefix_append _ _
  refine ⟨hthrough, ?_, hplace ▸ List.prefix_append _ _, by rw [hu, hmap]; exact hbelow⟩
  intro way hway
  rw [hu, hmap, mem_through_name hfront (Output.isName_mapPath hn)] at hway
  rcases hway with h | rfl
  · exact hthrough way (by rw [hu, mem_through_name hfront hn]; exact Or.inl h)
  · exact Or.inr hbelow

/-! ## both builds at once -/

/-- a build of `w₀` that has come to `w`, and one of the tree without the files `gone` that has come
to `v` -/
structure Beside (r : BuildRequest) (gone : List (List Text × Content)) (w₀ w v : Workspace) :
    Prop where
  without : Without gone w v
  wrote : ∃ ws, Wrote ws w₀ w ∧ ∀ x ∈ ws, w₀.place r.outDir <+: x.1

/-- what does not lie below the output directory is still there -/
theorem Beside.read (h : Beside r gone w₀ w v) {path : Text} (hf : w₀.isFile path = true)
    (hout : ¬ w₀.place r.outDir <+: w₀.place path) : w.read path = w₀.read path := by
  obtain ⟨ws, hw, hws⟩ := h.wrote
  have hl : lastWrite ws (w₀.place path) = none :=
    lastWrite_eq_none.mpr fun x hx he => hout (he ▸ hws x hx)
  obtain ⟨way, c, hfind⟩ := isFile_iff.mp hf
  obtain ⟨rfl, hg⟩ := find_found hfind
  have hs := stand?_of_get? hg
  rw [read_of_isFile (hw.grown.isFile hf), read_of_isFile hf, hw.grown.place_eq, hs,
    stand?_of_lastWrite hw hl hs]
  rfl

theorem Beside.fault?_eq (h : Beside r gone w₀ w v) {path : Text} (hf : w₀.isFile path = true)
    (hout : ¬ w₀.place r.outDir <+: w₀.place path) : w.fault? path = w₀.fault? path := by
  rw [fault?, fault?, h.read hf hout]

theorem Beside.clear_file (h : Beside r gone w₀ w v) {path : Text} (hf : w₀.isFile path = true)
    (hplace : ∀ x ∈ gone, x.1 ≠ w₀.place path) : Clear gone w path := by
  obtain ⟨ws, hw, -⟩ := h.wrote
  obtain ⟨way, c, hfind⟩ := isFile_iff.mp (hw.grown.isFile hf)
  obtain ⟨rfl, -⟩ := find_found hfind
  intro x hx hmem
  have hfile := h.without.there x hx
  rcases directory_of_found hfind hmem with he | he
  · rw [hw.grown.place_eq] at he
    exact hplace x hx he
  · rw [he] at hfile
    cases hfile

/-- the files `gone` are not where a build writes, nor on the way there -/
def Aside (r : BuildRequest) (gone : List (List Text × Content)) (w : Workspace) : Prop :=
  ∀ x ∈ gone, x.1 ∉ w.through r.outDir ∧ ¬ w.place r.outDir <+: x.1

theorem Below.clear {code : Text} (h : Below w r code) (hgone : Aside r gone w) :
    Clear gone w code ∧ Clear gone w (Output.mapPath code) := by
  refine ⟨fun x hx hmem => ?_, fun x hx hmem => ?_⟩
  · exact (h.codeWays x.1 hmem).elim (hgone x hx).1 (hgone x hx).2
  · exact (h.mapWays x.1 hmem).elim (hgone x hx).1 (hgone x hx).2

/-- **A file that nothing is wrong with is reported alike in both builds.** -/
theorem Beside.report (h : Beside r gone w₀ w v) (hwrite : r.write = true)
    (hinteractive : r.interactive = false) (hgone : Aside r gone w₀) {f : Text}
    (hs : isStoryPath f = true) (hf : w₀.isFile f = true)
    (hout : ¬ w₀.place r.outDir <+: w₀.place f) (hfine : w₀.fault? f = none)
    (hplace : ∀ x ∈ gone, x.1 ≠ w₀.place f)
    (hbelow : Below w₀ r (Output.codePath f root r.outDir)) :
    ∃ w' v' x, Build.report p r root w f = (w', x) ∧ Build.report p r root v f = (v', x) ∧
      x.path = f ∧ Reported p r root w₀ x ∧ Beside r gone w₀ w' v' := by
  obtain ⟨t, s, hread, hstory⟩ := exists_story (p := p) hs hfine
  have hreadw : w.read f = .ok t := (h.read hf hout).trans hread
  have hreadv : v.read f = .ok t := (h.without.read (h.clear_file hf hplace)).trans hreadw
  obtain ⟨ws, hw, hws⟩ := h.wrote
  obtain ⟨hcode, hmap⟩ := hbelow.clear hgone
  obtain ⟨w', v', e, hw', hv', h'⟩ :=
    h.without.writeStory s (hcode.cwd_eq hw.cwd) (hmap.cwd_eq hw.cwd)
  have hbeside : Beside r gone w₀ w' v' := by
    obtain ⟨ws', hws', hplaces⟩ := w.writeStory_wrote s (Output.codePath f root r.outDir)
    rw [hw'] at hws'
    refine ⟨h', ws ++ ws', hw.append hws', fun x hx => ?_⟩
    rcases List.mem_append.mp hx with hx | hx
    · exact hws x hx
    · rcases hplaces x hx with he | he
      · rw [he, hw.grown.place_eq]
        exact hbelow.codePlace
      · rw [he, hw.grown.place_eq]
        exact hbelow.mapPlace
  have hreportw := report_story root hwrite hinteractive hreadw hstory
  have hreportv := report_story root hwrite hinteractive hreadv hstory
  simp only [hw'] at hreportw
  simp only [hv'] at hreportv
  cases e with
  | none => exact ⟨w', v', _, hreportw, hreportv, rfl, .written hfine hread hstory, hbeside⟩
  | some e => exact ⟨w', v', _, hreportw, hreportv, rfl,
    .unwritten hfine hread hstory e, hbeside⟩

/-- **Both builds report alike on the files that nothing is wrong with**, and the one that goes
through the others as well reports what is wrong with them. -/
theorem Beside.reports (p : Project) (root : Text) (files : List Text) (hwrite : r.write = true)
    (hinteractive : r.interactive = false)
    (hgone : Aside r gone w₀)
    (hfiles : ∀ f ∈ files, isStoryPath f = true ∧ w₀.isFile f = true ∧
      ¬ w₀.place r.outDir <+: w₀.place f ∧ Below w₀ r (Output.codePath f root r.outDir) ∧
      (w₀.fault? f = none → ∀ x ∈ gone, x.1 ≠ w₀.place f))
    (h : Beside r gone w₀ w v) :
    (∀ x ∈ (Build.reports p r root w files).2, Reported p r root w₀ x) ∧
      (Build.reports p r root v (files.filter fun f => (w₀.fault? f).isNone)).2 =
        (Build.reports p r root w files).2.filter (fun x => (w₀.fault? x.path).isNone) ∧
      Beside r gone w₀ (Build.reports p r root w files).1
        (Build.reports p r root v (files.filter fun f => (w₀.fault? f).isNone)).1 := by
  induction files generalizing w v with
  | nil => exact ⟨nofun, rfl, h⟩
  | cons f files ih =>
    obtain ⟨hs, hf, hout, hbelow, hplace⟩ := hfiles f List.mem_cons_self
    have hrest := fun {w v} => @ih w v fun g hg => hfiles g (List.mem_cons_of_mem _ hg)
    rw [Build.reports, List.filter_cons]
    cases hfault : w₀.fault? f with
    | some why =>
      -- one build only says what is wrong, and the other does not come here
      have hreport := report_faulty p r root hs
        ((h.fault?_eq hf hout).trans hfault)
      obtain ⟨hall, hsame, hend⟩ := hrest h
      rw [hreport, if_neg (by simp), List.filter_cons, if_neg (by simp [hfault])]
      exact ⟨List.forall_mem_cons.mpr ⟨.faulty hfault, hall⟩, hsame, hend⟩
    | none =>
      obtain ⟨w', v', x, hw', hv', hpath, hx, h'⟩ :=
        h.report hwrite hinteractive hgone hs hf hout hfault (hplace hfault) hbelow
      obtain ⟨hall, hsame, hend⟩ := hrest h'
      rw [if_pos (by simp), Build.reports, hw', hv', List.filter_cons,
        if_pos (by simp [hpath, hfault])]
      exact ⟨List.forall_mem_cons.mpr ⟨hx, hall⟩, congrArg (x :: ·) hsame, hend⟩

/-- what a build below one path comes to, told by the reports `xs` on the files that it finds -/
structure Apart (p : Project) (r : BuildRequest) (root : Text) (w : Workspace) (files : List Text)
    (xs : List Report) : Prop where
  /-- there is one report on each file, in their order -/
  paths : xs.map Report.path = files
  each : ∀ x ∈ xs, Reported p r root w x
  full : Told r xs ((Command.build r).run w)
  /-- without the faulty files, the build has the reports on the others -/
  rest : Told r (xs.filter fun x => (w.fault? x.path).isNone)
    ((Command.build r).run (w.remove (w.faulty files)))
  /-- the same is printed of the files -/
  printed : (xs.filter fun x => (w.fault? x.path).isNone).flatMap Report.output =
    xs.flatMap Report.output
  /-- the same files are written, and they hold the same -/
  written : ∀ way c, w.Changed ((Command.build r).leaves w) way c ↔
    (w.remove (w.faulty files)).Changed
      ((Command.build r).leaves (w.remove (w.faulty files))) way c
  /-- the build fails if there is a faulty file or one that cannot be written, and only then -/
  failed : ((Command.build r).run w).failed = true ↔
    (∃ f ∈ files, (w.fault? f).isSome) ∨ ∃ x ∈ xs, w.fault? x.path = none ∧ x.failed = true

theorem printed_filter {xs : List Report} (h : ∀ x ∈ xs, Reported p r root w x) :
    (xs.filter fun x => (w.fault? x.path).isNone).flatMap Report.output =
      xs.flatMap Report.output := by
  induction xs with
  | nil => rfl
  | cons x xs ih =>
    obtain ⟨hx, hxs⟩ := List.forall_mem_cons.mp h
    rw [List.filter_cons, List.flatMap_cons, ← ih hxs]
    cases hx with
    | faulty fault =>
      rw [if_neg (by simp [fault])]
      rfl
    | written fine source story => rw [if_pos (by simp [fine]), List.flatMap_cons]
    | unwritten fine source story e => rw [if_pos (by simp [fine]), List.flatMap_cons]

theorem Told.failed_iff {xs : List Report} {f : Finish} (h : Told r xs f) :
    f.failed = true ↔ ∃ x ∈ xs, x.failed = true := by
  rw [Finish.failed, h.trouble]
  have hcount : 0 < Report.failures xs ↔ ∃ x ∈ xs, x.failed = true := List.countP_pos_iff
  split
  · next h0 =>
    rw [h0] at hcount
    exact ⟨nofun, fun hx => absurd (hcount.mpr hx) (Nat.lt_irrefl 0)⟩
  · next h0 => exact ⟨fun _ => hcount.mp (Nat.pos_of_ne_zero h0), fun _ => rfl⟩

theorem exists_failed {xs : List Report} (hpath : xs.map Report.path = files)
    (h : ∀ x ∈ xs, Reported p r root w x) : (∃ x ∈ xs, x.failed = true) ↔
      (∃ f ∈ files, (w.fault? f).isSome) ∨ ∃ x ∈ xs, w.fault? x.path = none ∧ x.failed = true := by
  constructor
  · rintro ⟨x, hx, hfailed⟩
    cases hfault : w.fault? x.path with
    | none => exact Or.inr ⟨x, hx, hfault, hfailed⟩
    | some why =>
      refine Or.inl ⟨x.path, hpath ▸ List.mem_map_of_mem hx, ?_⟩
      rw [hfault]
      rfl
  · rintro (⟨f, hf, hfault⟩ | ⟨x, hx, -, hfailed⟩)
    · rw [← hpath] at hf
      obtain ⟨x, hx, rfl⟩ := List.mem_map.mp hf
      refine ⟨x, hx, ?_⟩
      cases h x hx with
      | faulty => rfl
      | written fine => simp [fine] at hfault
      | unwritten fine => rfl
    · exact ⟨x, hx, hfailed⟩

theorem place_notMem_faulty (hw : w.root.Proper) (hroot : w.isDirectory root = true)
    (hscan : w.scan [root] r.search.excludes r.search.hidden = .ok files) {f : Text}
    (hf : f ∈ files) (hfine : w.fault? f = none) : w.place f ∉ w.faulty files := by
  intro hway
  obtain ⟨g, hg, he⟩ := List.mem_map.mp hway
  obtain ⟨hg, hfault⟩ := List.mem_filter.mp hg
  rw [place_inj hw hroot hscan hg hf he, hfine] at hfault
  cases hfault

end Build

theorem Overrides.project_without {gone : List (List Text × Content)} {w v : Workspace}
    (h : Without gone w v) (o : Overrides) (hc : ∀ path, o.config = some path → Clear gone w path) :
    o.project v = o.project w := by
  unfold Overrides.project
  rw [h.cwd]
  cases hpath : o.config with
  | none => rfl
  | some path =>
    simp only
    rw [Settings.load, Settings.load, h.read (hc path hpath)]

theorem Workspace.stand?_root {w : Workspace} {path : Text} (h : w.isDirectory path = true) :
    w.stand? [] = some .directory := by
  obtain ⟨way, es, hf⟩ := isDirectory_iff.mp h
  have hs := stand?_of_get? (find_found hf).2
  cases way with
  | nil => exact hs
  | cons n ns => exact Entry.stand?_of_append (a := []) (List.cons_ne_nil n ns) hs

theorem Workspace.exists_contents (w : Workspace) (ways : List (List Text))
    (h : ∀ way ∈ ways, ∃ c, w.stand? way = some (.file c)) :
    ∃ gone : List (List Text × Content), gone.map (·.1) = ways ∧
      ∀ x ∈ gone, w.stand? x.1 = some (.file x.2) := by
  induction ways with
  | nil => exact ⟨[], rfl, nofun⟩
  | cons way ways ih =>
    obtain ⟨⟨c, hc⟩, hways⟩ := List.forall_mem_cons.mp h
    obtain ⟨gone, hgone, hfiles⟩ := ih hways
    exact ⟨(way, c) :: gone, by rw [List.map_cons, hgone], List.forall_mem_cons.mpr ⟨hc, hfiles⟩⟩

/-- **One file that cannot be transformed does not disturb the rest of a build.**  The output
directory has none of the story files in it, and neither its path nor that of the settings leads
through a faulty one. -/
theorem BuildRequest.run_apart {r : BuildRequest} {w : Workspace} {root : Text} {p : Project}
    {files : List Text} (hw : w.root.Proper) (hpaths : r.search.paths = [root])
    (hroot : w.isDirectory root = true) (hwrite : r.write = true) (hinteractive : r.interactive = false)
    (hp : r.overrides.project w = .ok p)
    (hscan : w.scan [root] r.search.excludes r.search.hidden = .ok files)
    (hout : ∀ f ∈ files, ¬ w.place r.outDir <+: w.place f)
    (haside : ∀ way ∈ w.faulty files, way ∉ w.through r.outDir ∧
      ∀ path, r.overrides.config = some path → way ∉ w.through path) :
    ∃ xs, Build.Apart p r root w files xs := by
  have hfile : ∀ f ∈ files, ∃ c, w.stand? (w.place f) = some (.file c) := fun f hf => by
    obtain ⟨-, -, -, c, -, -, -, -, hc⟩ := mem_scan hw hscan hf
    exact ⟨c, hc⟩
  have hfaulty : ∀ way ∈ w.faulty files, ∃ f ∈ files, (w.fault? f).isSome ∧ w.place f = way :=
    fun way hway => by
      obtain ⟨f, hf, rfl⟩ := List.mem_map.mp hway
      exact ⟨f, List.mem_of_mem_filter hf, (List.mem_filter.mp hf).2, rfl⟩
  obtain ⟨gone, hgone, hcontents⟩ := Workspace.exists_contents w (w.faulty files)
    fun way hway => by
      obtain ⟨f, hf, -, rfl⟩ := hfaulty way hway
      exact hfile f hf
  have hmem : ∀ x ∈ gone, x.1 ∈ w.faulty files := fun x hx => hgone ▸ List.mem_map_of_mem hx
  obtain ⟨hwithout, hv⟩ := without_remove hw (Workspace.stand?_root hroot) hcontents
  rw [hgone] at hwithout hv
  have haside' : Build.Aside r gone w := fun x hx => by
    refine ⟨(haside _ (hmem x hx)).1, ?_⟩
    obtain ⟨f, hf, -, he⟩ := hfaulty _ (hmem x hx)
    rw [← he]
    exact hout f hf
  have hproject : r.overrides.project (w.remove (w.faulty files)) = .ok p := by
    rw [Overrides.project_without hwithout r.overrides fun path hpath x hx =>
      (haside _ (hmem x hx)).2 path hpath]
    exact hp
  have hscan' : (w.remove (w.faulty files)).scan [root] r.search.excludes r.search.hidden =
      .ok (files.filter fun f => (w.fault? f).isNone) := by
    rw [hwithout.scan hw hv hroot hscan, hgone]
    congr 1
    refine List.filter_congr fun f hf => ?_
    cases hfault : w.fault? f with
    | none => exact decide_eq_true (Build.place_notMem_faulty hw hroot hscan hf hfault)
    | some why =>
      refine decide_eq_false (not_not.mpr (List.mem_map_of_mem (List.mem_filter.mpr ⟨hf, ?_⟩)))
      rw [hfault]
      rfl
  have hbeside : Build.Beside r gone w w (w.remove (w.faulty files)) :=
    ⟨hwithout, [], Wrote.refl w, nofun⟩
  obtain ⟨heach, hsame, hend⟩ := hbeside.reports p root files hwrite hinteractive haside'
    fun f hf => by
      obtain ⟨hne, hisFile, ns, hns, hn, halong, -⟩ := Build.exists_way hw hroot hscan hf
      have hs := isStoryPath_of_mem_scan hscan hf
      refine ⟨hs, hisFile, hout f hf, Build.below_codePath hne hns hn halong hs, ?_⟩
      intro hfine x hx he
      exact Build.place_notMem_faulty hw hroot hscan hf hfine (he ▸ hmem x hx)
  obtain ⟨hfull, hworkspace⟩ := BuildRequest.run_told hpaths hp hscan
  obtain ⟨hrest, hworkspace'⟩ := BuildRequest.run_told hpaths hproject hscan'
  rw [hsame] at hrest
  rw [← hworkspace, ← hworkspace'] at hend
  have hpath := Build.path_reports (p := p) (r := r) root w files
  refine ⟨_, hpath, heach, hfull, hrest, Build.printed_filter heach, fun way c => ?_, ?_⟩
  · exact hwithout.changed hend.without way c
  · rw [hfull.failed_iff]
    exact Build.exists_failed hpath heach

/-- a directory with a file that exports nothing as the default, and a story file -/
def oneFaulty : Workspace :=
  ⟨.directory [("a".toList, .directory
    [("B.stories.ts".toList, .file (.text "export const A = {};\n")),
      ("G.stories.ts".toList, .file (.text "export default {};\n"))])], []⟩

def buildA (outDir : Text) : BuildRequest :=
  ⟨⟨["a".toList], [], true⟩, Command.noOverrides, outDir, true, false, false⟩

def filesA : List Text := ["a/B.stories.ts", "a/G.stories.ts"]

theorem proper_oneFaulty : oneFaulty.root.Proper := by
  have hname : ∀ n ∈ ["a".toList, "B.stories.ts".toList, "G.stories.ts".toList],
      Component.ofPiece? n = some (.named n) ∧ '/' ∉ n := by decide
  refine Entry.proper_directory.mpr ⟨List.pairwise_singleton _ _, fun x hx => ?_⟩
  obtain rfl := List.mem_singleton.mp hx
  refine ⟨hname _ (by simp), Entry.proper_directory.mpr ⟨by decide, fun y hy => ?_⟩⟩
  rcases List.mem_cons.mp hy with rfl | hy
  · exact ⟨hname _ (by simp), Entry.proper_file _⟩
  · obtain rfl := List.mem_singleton.mp hy
    exact ⟨hname _ (by simp), Entry.proper_file _⟩

theorem BuildRequest.run_apart_one : oneFaulty.faulty filesA = [["a".toList, "B.stories.ts".toList]] ∧
    ∃ xs, Build.Apart plainProject (buildA "out") "a" oneFaulty filesA xs := by
  have hfaulty : oneFaulty.faulty filesA = [["a".toList, "B.stories.ts".toList]] := by
    decide +kernel
  have hscan : oneFaulty.scan ["a".toList] [] true = .ok filesA := by decide +kernel
  refine ⟨hfaulty, run_apart proper_oneFaulty rfl (by decide +kernel) rfl rfl rfl hscan
    (by decide +kernel) fun way hway => ⟨?_, nofun⟩⟩
  have hmem : ∀ way ∈ oneFaulty.faulty filesA, way ∉ oneFaulty.through (buildA "out").outDir := by
    decide +kernel
  exact hmem way hway

/-- an output directory cannot be made where its path leads through a faulty file -/
theorem BuildRequest.run_apart_through :
    oneFaulty.scan ["a".toList] [] true = .ok filesA ∧
      (∀ f ∈ filesA, ¬ oneFaulty.place "a/B.stories.ts/out" <+: oneFaulty.place f) ∧
      oneFaulty.faulty filesA = [["a".toList, "B.stories.ts".toList]] ∧
      ((Command.build (buildA "a/B.stories.ts/out")).leaves oneFaulty).isFile
        "a/B.stories.ts/out/G.stories.ts" = false ∧
      ((Command.build (buildA "a/B.stories.ts/out")).leaves
        (oneFaulty.remove (oneFaulty.faulty filesA))).isFile
        "a/B.stories.ts/out/G.stories.ts" = true := by
  decide +kernel

end StorySuite
