import StorySuite.Proofs.Command.Build

/-!
# Builds as lists of reports

What a build says of a file depends on the files at that moment and on nothing else, so a build below
one path is told by what is said of each file, one after the other.

* `Report`                    what becomes of one file and what is said of it;
* `Build.file_eq`             what was said before makes no difference;
* `Build.reports p r root`    the reports on some files, and the files after them;
* `Build.foldl_add`           **going through some files says what is in the reports**;
* `Build.Told r xs f`         a build that ends in `f` has the reports `xs`;
* `BuildRequest.run_told`     **a build below one path has the reports on the files there**.
-/

namespace StorySuite

/-- what becomes of one file and what is said of it -/
structure Report where
  path : Text
  output : List Text
  messages : List Text
  result : FileResult

namespace Report

def failed (x : Report) : Bool :=
  match x.result with
  | .failed _ => true
  | _ => false

def tally (xs : List Report) : Tally :=
  xs.foldl (fun t x => t.add x.result) ⟨xs.length, 0, 0, 0⟩

def failures (xs : List Report) : Nat := xs.countP failed

theorem failed_foldl (xs : List Report) (t : Tally) :
    (xs.foldl (fun t x => t.add x.result) t).failed = t.failed + failures xs := by
  induction xs generalizing t with
  | nil => rfl
  | cons x xs ih =>
    rw [List.foldl_cons, ih, failures, failures, List.countP_cons, failed]
    cases x.result with
    | written => rfl
    | kept => rfl
    | failed why =>
      show t.failed + 1 + _ = t.failed + (_ + 1)
      omega

theorem failed_tally (xs : List Report) : (tally xs).failed = failures xs :=
  (failed_foldl xs _).trans (Nat.zero_add _)

end Report

namespace Build

variable {p : Project} {r : BuildRequest}

/-- what was said before makes no difference to what is done with a file -/
theorem file_eq (s : Session) (path target : Text) : file p r s path target =
    ({ workspace := (file p r (.start s.workspace) path target).1.workspace,
       output := s.output ++ (file p r (.start s.workspace) path target).1.output,
       messages := s.messages ++ (file p r (.start s.workspace) path target).1.messages },
      (file p r (.start s.workspace) path target).2) := by
  unfold file
  rw [show (Session.start s.workspace).workspace = s.workspace from rfl]
  have hsame : s = ⟨s.workspace, s.output ++ (Session.start s.workspace).output,
      s.messages ++ (Session.start s.workspace).messages⟩ := by
    show s = ⟨s.workspace, s.output ++ [], s.messages ++ []⟩
    rw [List.append_nil, List.append_nil]
  cases hread : s.workspace.read path with
  | error e => exact congrArg (Prod.mk · _) hsame
  | ok code =>
    simp only
    cases htransform : p.transform path code with
    | error e => exact congrArg (Prod.mk · _) hsame
    | ok d =>
      cases d with
      | unchanged c => exact congrArg (Prod.mk · _) hsame
      | story story =>
        simp only [deliver]
        split
        · rfl
        · split
          · rfl
          · cases hw : s.workspace.writeStory story target with
            | mk w e => cases e <;> simp [hw, Session.printAll, Session.tellAll, Session.start]

/-- the report on a file, and the files after it -/
def report (p : Project) (r : BuildRequest) (root : Text) (w : Workspace) (path : Text) :
    Workspace × Report :=
  let x := file p r (.start w) path (Output.codePath path root r.outDir)
  (x.1.workspace, ⟨path, x.1.output, (tellResult x.1 x.2).messages, x.2⟩)

/-- the reports on some files, and the files after them -/
def reports (p : Project) (r : BuildRequest) (root : Text) :
    Workspace → List Text → Workspace × List Report
  | w, [] => (w, [])
  | w, path :: paths =>
    let x := report p r root w path
    let y := reports p r root x.1 paths
    (y.1, x.2 :: y.2)

theorem add_report (root : Text) (b : Build) (path : Text) : add p r root b path =
    let x := report p r root b.session.workspace path
    ⟨⟨x.1, b.session.output ++ x.2.output, b.session.messages ++ x.2.messages⟩,
      b.tally.add x.2.result⟩ := by
  unfold add report
  rw [file_eq]
  generalize file p r (.start b.session.workspace) path (Output.codePath path root r.outDir) = x
  obtain ⟨s, d⟩ := x
  cases d <;> simp [tellResult, Session.tell]

/-- **Going through some files says what is in the reports.** -/
theorem foldl_add (root : Text) (b : Build) (paths : List Text) : paths.foldl (add p r root) b =
    let y := reports p r root b.session.workspace paths
    ⟨⟨y.1, b.session.output ++ y.2.flatMap Report.output,
        b.session.messages ++ y.2.flatMap Report.messages⟩,
      y.2.foldl (fun t x => t.add x.result) b.tally⟩ := by
  induction paths generalizing b with
  | nil => simp [reports]
  | cons path paths ih =>
    rw [List.foldl_cons, ih, add_report]
    simp only [reports, List.flatMap_cons, List.foldl_cons, List.append_assoc]

theorem path_reports (root : Text) (w : Workspace) (paths : List Text) :
    (reports p r root w paths).2.map Report.path = paths := by
  induction paths generalizing w with
  | nil => rfl
  | cons path paths ih => exact congrArg (path :: ·) (ih _)

/-- a build that ends in `f` has the reports `xs` -/
structure Told (r : BuildRequest) (xs : List Report) (f : Finish) : Prop where
  output : f.session.output = xs.flatMap Report.output ++ closing r (Report.tally xs)
  messages : f.session.messages = (if r.verbose then
    r.search.paths.map (foundLine xs.length) else []) ++ xs.flatMap Report.messages
  trouble : f.trouble = if Report.failures xs = 0 then none
    else some [Text.ofNat (Report.failures xs) ++ " story file(s) failed to transform".toList]

end Build

/-- **A build below one path has the reports on the files there.** -/
theorem BuildRequest.run_told {r : BuildRequest} {w : Workspace} {root : Text} {p : Project}
    {files : List Text} (hroot : r.search.paths = [root]) (hp : r.overrides.project w = .ok p)
    (hscan : w.scan [root] r.search.excludes r.search.hidden = .ok files) :
    Build.Told r (Build.reports p r root w files).2 ((Command.build r).run w) ∧
      ((Command.build r).run w).session.workspace = (Build.reports p r root w files).1 := by
  have hlength : (Build.reports p r root w files).2.length = files.length := by
    have h := congrArg List.length (Build.path_reports (p := p) (r := r) root w files)
    rwa [List.length_map] at h
  have hrun : (Command.build r).run w =
      let b := Build.addAll p r root ⟨.start w, .zero⟩ files
      ⟨b.session.printAll (Build.closing r b.tally), Build.trouble? b.tally⟩ := by
    show r.run (.start w) = _
    unfold run
    rw [show (Session.start w).workspace = w from rfl, hp]
    simp only [Build.run, hroot, Build.all]
    rw [show (Session.start w).workspace = w from rfl, hscan]
  have hadd : Build.addAll p r root ⟨.start w, .zero⟩ files =
      let y := Build.reports p r root w files
      ⟨⟨y.1, y.2.flatMap Report.output, (if r.verbose then [Build.foundLine files.length root] else []) ++
          y.2.flatMap Report.messages⟩, Report.tally y.2⟩ := by
    unfold Build.addAll
    rw [Build.foldl_add]
    simp only [Report.tally, hlength, Tally.zero, Nat.zero_add]
    split <;> rfl
  rw [hrun, hadd]
  refine ⟨⟨rfl, ?_, ?_⟩, rfl⟩
  · simp only [hroot, List.map_cons, List.map_nil, hlength]
    rfl
  · simp only [Build.trouble?, Report.failed_tally]

end StorySuite
