import StorySuite.Command.Run
import StorySuite.Proofs.Files.Scan
import StorySuite.Proofs.Files.Write

/-!
# Builds as lists of deliveries

A build that writes and in which nothing fails is told by the files it is made of: each is read,
transformed and written, one after the other.

* `Build.found p r b roots`   the files that a build goes through;
* `Runs p r w js ws w'`       the files `js` are delivered one after the other, which writes `ws`;
* `Built p r w roots js ws w'`   the same of a whole build, with its searches;
* `all_built`                 **a build without trouble is one**;
* `Built.all_eq`              and the other way round.
-/

namespace StorySuite

/-- a file that was found, and the path below which it was found -/
structure Scanned where
  root : Text
  path : Text
  deriving DecidableEq, Repr

namespace Scanned

/-- where the test module of a file goes -/
def code (r : BuildRequest) (j : Scanned) : Text := Output.codePath j.path j.root r.outDir

/-- where the source map of a file goes -/
def map (r : BuildRequest) (j : Scanned) : Text := Output.mapPath (j.code r)

end Scanned

namespace Build

variable {p : Project} {r : BuildRequest}

/-- the files that a build goes through -/
def found (p : Project) (r : BuildRequest) (b : Build) : List Text → List Scanned
  | [] => []
  | root :: roots =>
    match b.session.workspace.scan [root] r.search.excludes r.search.hidden with
    | .error _ => []
    | .ok files => files.map (Scanned.mk root) ++ found p r (addAll p r root b files) roots

end Build

/-- the files that a build goes through in a workspace -/
def BuildRequest.files (r : BuildRequest) (p : Project) (w : Workspace) : List Scanned :=
  Build.found p r ⟨.start w, .zero⟩ r.search.paths

def Command.leaves (c : Command) (w : Workspace) : Workspace := (c.run w).session.workspace

namespace Build

variable {p : Project} {r : BuildRequest}

/-! ## one file -/

/-- a file is read, transformed and written -/
structure Delivery (p : Project) (r : BuildRequest) (w : Workspace) (j : Scanned) (s : Story)
    (w' : Workspace) : Prop where
  source : ∃ t, w.read j.path = .ok t ∧ p.transform j.path t = .ok (.story s)
  write : w.writeStory s (j.code r) = (w', none)

theorem transform_story {path t : Text} {d : Transformed} (hs : isStoryPath path = true)
    (h : p.transform path t = .ok d) : ∃ s, d = .story s := by
  have hf : isStoryFile path = true := (Bool.and_eq_true _ _ ▸ hs : _ ∧ _).2
  unfold Project.transform transform at h
  rw [if_pos hf] at h
  cases hm : Story.ofModule (Module.read path t) p.options.tags (p.titles.title path) with
  | error e =>
    rw [hm] at h
    cases h
  | ok s =>
    rw [hm] at h
    exact ⟨s, (Except.ok.inj h).symm⟩

theorem file_of_delivery (hw : r.write = true) (hi : r.interactive = false) {s : Session}
    {j : Scanned} {story : Story} {w' : Workspace} (h : Delivery p r s.workspace j story w') :
    ∃ s', file p r s j.path (j.code r) = (s', .written) ∧ s'.workspace = w' := by
  obtain ⟨⟨t, hr, ht⟩, hd⟩ := h
  have hd' : ((s.tellAll (story.findings.lines j.path r.verbose)).printAll
      (announcement r story j.path (j.code r))).workspace.writeStory story (j.code r) = (w', none) := hd
  unfold file
  simp only [hr, ht, deliver, hw, hi, hd']
  exact ⟨_, rfl, rfl⟩

theorem delivery_of_file (hw : r.write = true) {s s' : Session} {j : Scanned} {d : FileResult}
    (hs : isStoryPath j.path = true) (h : file p r s j.path (j.code r) = (s', d))
    (hd : ∀ t, d ≠ .failed t) : r.interactive = false ∧ d = .written ∧
      ∃ story, Delivery p r s.workspace j story s'.workspace := by
  unfold file at h
  split at h
  · exact absurd (congrArg Prod.snd h).symm (hd _)
  · next t hr =>
    split at h
    · exact absurd (congrArg Prod.snd h).symm (hd _)
    · next c ht =>
      obtain ⟨story, hc⟩ := transform_story hs ht
      cases hc
    · next story ht =>
      simp only [deliver, hw, Bool.not_true, Bool.false_eq_true, if_false] at h
      split at h
      · exact absurd (congrArg Prod.snd h).symm (hd _)
      · next hi =>
        split at h
        · next w₁ hwrite =>
          cases h
          exact ⟨by simpa using hi, rfl, story, ⟨t, hr, ht⟩, hwrite⟩
        · exact absurd (congrArg Prod.snd h).symm (hd _)

/-! ## a build with one more file -/

theorem failed_le_add (t : Tally) (d : FileResult) : t.failed ≤ (t.add d).failed := by
  cases d
  · exact Nat.le_refl _
  · exact Nat.le_refl _
  · exact Nat.le_succ _

theorem add_of_delivery (hw : r.write = true) (hi : r.interactive = false) {b : Build}
    {j : Scanned} {story : Story} {w' : Workspace}
    (h : Delivery p r b.session.workspace j story w') :
    (add p r j.root b j.path).session.workspace = w' ∧
      (add p r j.root b j.path).tally = b.tally.add .written := by
  obtain ⟨s', hf, hs'⟩ := file_of_delivery hw hi h
  have ha : add p r j.root b j.path = ⟨tellResult s' .written, b.tally.add .written⟩ := by
    unfold Scanned.code at hf
    simp only [add, hf]
  rw [ha]
  exact ⟨hs', rfl⟩

theorem delivery_of_add (hw : r.write = true) {b : Build} {j : Scanned}
    (hs : isStoryPath j.path = true) (hf : (add p r j.root b j.path).tally.failed = b.tally.failed) :
    r.interactive = false ∧ (add p r j.root b j.path).tally = b.tally.add .written ∧
      ∃ story, Delivery p r b.session.workspace j story (add p r j.root b j.path).session.workspace := by
  obtain ⟨⟨s', d⟩, hfile⟩ : ∃ x, file p r b.session j.path (j.code r) = x := ⟨_, rfl⟩
  have ha : add p r j.root b j.path = ⟨tellResult s' d, b.tally.add d⟩ := by
    unfold Scanned.code at hfile
    simp only [add, hfile]
  have hd : ∀ t, d ≠ .failed t := by
    rintro t rfl
    rw [ha] at hf
    exact absurd hf (Nat.succ_ne_self _)
  obtain ⟨hi, rfl, hdel⟩ := delivery_of_file hw hs hfile hd
  rw [ha]
  exact ⟨hi, rfl, hdel⟩

/-! ## files one after the other -/

/-- the files `js` are delivered one after the other, which writes `ws` -/
inductive Runs (p : Project) (r : BuildRequest) :
    Workspace → List Scanned → List (List Text × Content) → Workspace → Prop where
  | done (w : Workspace) : Runs p r w [] [] w
  | step {w w₁ w₂ : Workspace} {j : Scanned} {js : List Scanned} {ws : List (List Text × Content)}
      {story : Story} (h : Delivery p r w j story w₁) (hs : Runs p r w₁ js ws w₂) :
      Runs p r w (j :: js) (w.storyWrites story (j.code r) ++ ws) w₂

/-- the counts with `n` more files that are delivered -/
def delivered (t : Tally) (n : Nat) : Tally :=
  { t with transformed := t.transformed + n, written := t.written + n }

theorem delivered_succ (t : Tally) (n : Nat) :
    delivered (t.add .written) n = delivered t (n + 1) := by
  simp only [delivered, Tally.add, Nat.add_assoc, Nat.add_comm 1]

theorem failed_le_foldl (root : Text) (b : Build) (files : List Text) :
    b.tally.failed ≤ (files.foldl (add p r root) b).tally.failed := by
  induction files generalizing b with
  | nil => exact Nat.le_refl _
  | cons f files ih =>
    have h : b.tally.failed ≤ (add p r root b f).tally.failed := by
      unfold add
      exact failed_le_add _ _
    exact Nat.le_trans h (ih _)

theorem runs_of_foldl (hw : r.write = true) {root : Text} {b : Build} {files : List Text}
    (hs : ∀ f ∈ files, isStoryPath f = true)
    (hf : (files.foldl (add p r root) b).tally.failed = b.tally.failed) :
    (files ≠ [] → r.interactive = false) ∧
      (files.foldl (add p r root) b).tally = delivered b.tally files.length ∧
      ∃ ws, Runs p r b.session.workspace (files.map (Scanned.mk root)) ws
        (files.foldl (add p r root) b).session.workspace := by
  induction files generalizing b with
  | nil => exact ⟨fun h => absurd rfl h, rfl, [], Runs.done _⟩
  | cons f files ih =>
    have h₁ := failed_le_foldl (p := p) (r := r) root (add p r root b f) files
    have h₂ : b.tally.failed ≤ (add p r root b f).tally.failed := failed_le_add _ _
    rw [List.foldl_cons] at hf
    have h₃ : (add p r root b f).tally.failed = b.tally.failed := by omega
    obtain ⟨hi, ht, story, hd⟩ :=
      delivery_of_add (j := ⟨root, f⟩) hw (hs f List.mem_cons_self) h₃
    obtain ⟨-, ht', ws, hr⟩ := ih (fun g hg => hs g (List.mem_cons_of_mem _ hg))
      (b := add p r root b f) (by omega)
    refine ⟨fun _ => hi, ?_, _, Runs.step hd hr⟩
    rw [List.foldl_cons, ht', show (add p r root b f).tally = _ from ht, delivered_succ]
    rfl

theorem foldl_of_runs (hw : r.write = true) {root : Text} {b : Build} {files : List Text}
    (hi : files ≠ [] → r.interactive = false) {ws : List (List Text × Content)} {w' : Workspace}
    (h : Runs p r b.session.workspace (files.map (Scanned.mk root)) ws w') :
    (files.foldl (add p r root) b).session.workspace = w' ∧
      (files.foldl (add p r root) b).tally = delivered b.tally files.length := by
  induction files generalizing b ws with
  | nil =>
    cases h
    exact ⟨rfl, rfl⟩
  | cons f files ih =>
    cases h with
    | step hd hr =>
      have hi' := hi (List.cons_ne_nil _ _)
      obtain ⟨hs, ht⟩ := add_of_delivery hw hi' hd
      rw [← hs] at hr
      obtain ⟨h₁, h₂⟩ := ih (fun _ => hi') hr
      refine ⟨h₁, ?_⟩
      rw [List.foldl_cons, h₂, show (add p r root b f).tally = _ from ht, delivered_succ]
      rfl

/-! ## whole builds -/

/-- a build that finds the files `js` and delivers them, which writes `ws` -/
inductive Built (p : Project) (r : BuildRequest) :
    Workspace → List Text → List Scanned → List (List Text × Content) → Workspace → Prop where
  | done (w : Workspace) : Built p r w [] [] [] w
  | root {w w₁ w₂ : Workspace} {root : Text} {roots files : List Text} {js : List Scanned}
      {ws ws' : List (List Text × Content)}
      (h : w.scan [root] r.search.excludes r.search.hidden = .ok files)
      (hr : Runs p r w (files.map (Scanned.mk root)) ws w₁) (hb : Built p r w₁ roots js ws' w₂) :
      Built p r w (root :: roots) (files.map (Scanned.mk root) ++ js) (ws ++ ws') w₂

/-- how the files below a path are gone through -/
theorem addAll_eq (root : Text) (b : Build) (files : List Text) : ∃ s, s.workspace = b.session.workspace ∧
    addAll p r root b files = files.foldl (add p r root)
      ⟨s, { b.tally with scanned := b.tally.scanned + files.length }⟩ := by
  unfold addAll
  refine ⟨_, ?_, rfl⟩
  split <;> rfl

theorem failed_le_addAll (root : Text) (b : Build) (files : List Text) :
    b.tally.failed ≤ (addAll p r root b files).tally.failed := by
  obtain ⟨s, -, hadd⟩ := addAll_eq (p := p) (r := r) root b files
  rw [hadd]
  exact failed_le_foldl root ⟨s, { b.tally with scanned := b.tally.scanned + files.length }⟩ files

theorem failed_le_all (b : Build) (roots : List Text) :
    b.tally.failed ≤ (all p r b roots).1.tally.failed := by
  induction roots generalizing b with
  | nil => exact Nat.le_refl _
  | cons root roots ih =>
    rw [all]
    split
    · exact Nat.le_refl _
    · next files _ => exact Nat.le_trans (failed_le_addAll root b files) (ih _)

/-- the counts with `n` more files that are found and delivered -/
def built (t : Tally) (n : Nat) : Tally := delivered { t with scanned := t.scanned + n } n

theorem built_add (t : Tally) (m n : Nat) : built (built t m) n = built t (m + n) := by
  simp only [built, delivered, Nat.add_assoc]

theorem runs_of_addAll (hw : r.write = true) {root : Text} {b : Build} {files : List Text}
    (hs : ∀ f ∈ files, isStoryPath f = true)
    (hf : (addAll p r root b files).tally.failed = b.tally.failed) :
    (files ≠ [] → r.interactive = false) ∧
      (addAll p r root b files).tally = built b.tally files.length ∧
      ∃ ws, Runs p r b.session.workspace (files.map (Scanned.mk root)) ws
        (addAll p r root b files).session.workspace := by
  obtain ⟨s, hw', hadd⟩ := addAll_eq (p := p) (r := r) root b files
  rw [hadd] at hf ⊢
  rw [← hw']
  exact runs_of_foldl hw hs hf

theorem addAll_of_runs (hw : r.write = true) {root : Text} {b : Build} {files : List Text}
    (hi : files ≠ [] → r.interactive = false) {ws : List (List Text × Content)} {w' : Workspace}
    (h : Runs p r b.session.workspace (files.map (Scanned.mk root)) ws w') :
    (addAll p r root b files).session.workspace = w' ∧
      (addAll p r root b files).tally = built b.tally files.length := by
  obtain ⟨s, hw', hadd⟩ := addAll_eq (p := p) (r := r) root b files
  rw [hadd]
  rw [← hw'] at h
  exact foldl_of_runs hw hi h

/-- **A build without trouble delivers every file that it finds.** -/
theorem all_built (hw : r.write = true) {b : Build} {roots : List Text}
    (he : (all p r b roots).2 = none)
    (hf : (all p r b roots).1.tally.failed = b.tally.failed) :
    (found p r b roots ≠ [] → r.interactive = false) ∧
      (all p r b roots).1.tally = built b.tally (found p r b roots).length ∧
      ∃ ws, Built p r b.session.workspace roots (found p r b roots) ws
        (all p r b roots).1.session.workspace := by
  induction roots generalizing b with
  | nil => exact ⟨fun h => absurd rfl h, rfl, [], Built.done _⟩
  | cons root roots ih =>
    unfold found
    rw [all] at he hf ⊢
    cases hscan : b.session.workspace.scan [root] r.search.excludes r.search.hidden with
    | error e =>
      rw [hscan] at he
      cases he
    | ok files =>
      rw [hscan] at he hf
      simp only at he hf ⊢
      -- no file fails, neither below this path nor below the others
      have h₁ := failed_le_addAll (p := p) (r := r) root b files
      have h₂ := failed_le_all (p := p) (r := r) (addAll p r root b files) roots
      have hf₁ : (addAll p r root b files).tally.failed = b.tally.failed := by omega
      have hf₂ : (all p r (addAll p r root b files) roots).1.tally.failed =
          (addAll p r root b files).tally.failed := by omega
      obtain ⟨hi₁, ht₁, ws₁, hr⟩ :=
        runs_of_addAll hw (fun f hf => Workspace.isStoryPath_of_mem_scan hscan hf) hf₁
      obtain ⟨hi₂, ht₂, ws₂, hb⟩ := ih he hf₂
      refine ⟨fun hne => ?_, ?_, _, Built.root hscan hr hb⟩
      · by_cases hfiles : files = []
        · subst hfiles
          exact hi₂ hne
        · exact hi₁ hfiles
      · rw [ht₂, ht₁, built_add, List.length_append, List.length_map]

/-- what is delivered can be built -/
theorem Built.all_eq (hw : r.write = true) {b : Build} {roots : List Text} {js : List Scanned}
    {ws : List (List Text × Content)} {w' : Workspace}
    (h : Built p r b.session.workspace roots js ws w') (hi : js ≠ [] → r.interactive = false) :
    found p r b roots = js ∧ (all p r b roots).2 = none ∧
      (all p r b roots).1.session.workspace = w' ∧
      (all p r b roots).1.tally = built b.tally js.length := by
  induction roots generalizing b js ws with
  | nil =>
    cases h
    exact ⟨rfl, rfl, rfl, rfl⟩
  | cons root roots ih =>
    cases h with
    | @root _ w₁ _ _ _ files js _ _ hscan hr hb =>
      obtain ⟨hs, ht⟩ := addAll_of_runs hw (fun hne => hi (by simp [hne])) hr
      rw [← hs] at hb
      obtain ⟨hf, he, hs', ht'⟩ := ih hb fun hne => hi (by simp [hne])
      rw [found, all, hscan]
      refine ⟨by simp only [hf], he, hs', ?_⟩
      simp only [ht', ht, built_add, List.length_append, List.length_map]

end Build

end StorySuite
