import StorySuite.Proofs.Files.Trail
import StorySuite.Proofs.Files.Write

/-!
# Files that are taken away

Two workspaces of which one lacks some files of the other are told apart only by paths that lead
through the places of these files.  Along all other paths the same is found, read and written, with
the same errors.

* `Without gone w v`      `v` is `w` without the files `gone`;
* `Clear gone w path`     the path leads through no place of them;
* `Without.find`          **the same is found**;
* `Without.read`, `Without.write`, `Without.writeStory`   the same is read and written.
-/

namespace StorySuite

/-- both fail alike, or both give something, which is related -/
def Alike {ε α β : Type} (R : α → β → Prop) (a : Except ε α) (b : Except ε β) : Prop :=
  (∃ e, a = .error e ∧ b = .error e) ∨ ∃ x y, a = .ok x ∧ b = .ok y ∧ R x y

/-- spots that differ in what is in a directory only -/
inductive Spot.Same : Spot → Spot → Prop
  | file (way : List Text) (c : Content) : Same (.found way (.file c)) (.found way (.file c))
  | directory (way : List Text) (es fs : List (Text × Entry)) :
      Same (.found way (.directory es)) (.found way (.directory fs))
  | vacant (way : List Text) (slash : Bool) : Same (.vacant way slash) (.vacant way slash)

namespace Workspace

open StorySuite.Path

variable {gone : List (List Text × Content)} {w v : Workspace}

/-- `v` is `w` without the files `gone` -/
structure Without (gone : List (List Text × Content)) (w v : Workspace) : Prop where
  cwd : v.cwd = w.cwd
  there : ∀ x ∈ gone, w.stand? x.1 = some (.file x.2)
  away : ∀ x ∈ gone, v.stand? x.1 = none
  same : ∀ {way}, (∀ x ∈ gone, x.1 ≠ way) → v.stand? way = w.stand? way

/-- a path leads through no place of the files `gone` -/
def Clear (gone : List (List Text × Content)) (w : Workspace) (path : Text) : Prop :=
  ∀ x ∈ gone, x.1 ∉ w.through path

theorem Clear.place {path : Text} (h : Clear gone w path) : ∀ x ∈ gone, x.1 ≠ w.place path :=
  fun x hx he => h x hx (he ▸ w.place_mem_through path)

theorem Clear.parent {p q : Text} (h : Clear gone w p) (hq : parent? p = some q) : Clear gone w q :=
  fun x hx hmem => h x hx (through_parent? hq _ hmem)

theorem Clear.cwd_eq {path : Text} (h : Clear gone w path) (hv : v.cwd = w.cwd) :
    Clear gone v path := by
  intro x hx
  rw [through, hv]
  exact h x hx

/-! ## finding -/

theorem Without.file (h : Without gone w v) {here : List Text} (hh : ∀ x ∈ gone, x.1 ≠ here)
    {c : Content} (hc : w.root.get? here = some (.file c)) : v.root.get? here = some (.file c) := by
  obtain ⟨e, he, hs⟩ := exists_get? ((h.same hh).trans (stand?_of_get? hc))
  cases e with
  | file d =>
    obtain rfl : d = c := Stand.file.inj hs
    exact he
  | directory es => cases hs

theorem Without.directory (h : Without gone w v) {here : List Text} (hh : ∀ x ∈ gone, x.1 ≠ here)
    {es : List (Text × Entry)} (hes : w.root.get? here = some (.directory es)) :
    ∃ fs, v.root.get? here = some (.directory fs) := by
  obtain ⟨e, he, hs⟩ := exists_get? ((h.same hh).trans (stand?_of_get? hes))
  cases e with
  | file d => cases hs
  | directory fs => exact ⟨fs, he⟩

theorem Without.missing (h : Without gone w v) {here : List Text} (hh : ∀ x ∈ gone, x.1 ≠ here)
    (hn : w.root.get? here = none) : v.root.get? here = none := by
  have hs : v.stand? here = none := by rw [h.same hh, stand?, Entry.stand?, hn]; rfl
  exact Option.map_eq_none_iff.mp hs

theorem ne_of_trail {here : List Text} {cs : List Component}
    (h : ∀ x ∈ gone, x.1 ∉ trail here cs) : ∀ x ∈ gone, x.1 ≠ here :=
  fun x hx he => h x hx (he ▸ here_mem_trail here cs)

theorem trail_down {here : List Text} {p : Text} {ps : List Text} (hp : ¬(p = [] || p = ['.']) = true)
    (hp' : p ≠ ['.', '.']) (h : ∀ x ∈ gone, x.1 ∉ trail here ((p :: ps).filterMap Component.ofPiece?)) :
    ∀ x ∈ gone, x.1 ∉ trail (here ++ [p]) (ps.filterMap Component.ofPiece?) := by
  rw [steps_down hp hp'] at h
  exact fun x hx hmem => h x hx (List.mem_cons_of_mem _ hmem)

/-- what is followed past the places of the missing files -/
theorem Without.follow (h : Without gone w v) {here : List Text} {ps : List Text}
    (hclear : ∀ x ∈ gone, x.1 ∉ trail here (ps.filterMap Component.ofPiece?)) :
    Alike Spot.Same (w.follow here ps) (v.follow here ps) := by
  fun_induction Workspace.follow w here ps with
  | case1 here e he =>
    rw [Workspace.follow]
    cases e with
    | file c =>
      rw [h.file (ne_of_trail hclear) he]
      exact Or.inr ⟨_, _, rfl, rfl, .file here c⟩
    | directory es =>
      obtain ⟨fs, hfs⟩ := h.directory (ne_of_trail hclear) he
      rw [hfs]
      exact Or.inr ⟨_, _, rfl, rfl, .directory here es fs⟩
  | case2 here hn =>
    refine Or.inl ⟨_, rfl, ?_⟩
    rw [Workspace.follow, h.missing (ne_of_trail hclear) hn]
  | case3 here p ps hn =>
    refine Or.inl ⟨_, rfl, ?_⟩
    rw [Workspace.follow, h.missing (ne_of_trail hclear) hn]
  | case4 here p ps c hc =>
    refine Or.inl ⟨_, rfl, ?_⟩
    rw [Workspace.follow, h.file (ne_of_trail hclear) hc]
  | case5 here p ps es he hp ih =>
    obtain ⟨fs, hfs⟩ := h.directory (ne_of_trail hclear) he
    rw [follow_cons hfs, if_pos hp]
    rw [steps_skip hp] at hclear
    exact ih hclear
  | case6 here ps es he hp ih =>
    obtain ⟨fs, hfs⟩ := h.directory (ne_of_trail hclear) he
    rw [follow_cons hfs, if_neg hp, if_pos rfl]
    exact ih fun x hx hmem => hclear x hx (List.mem_cons_of_mem _ hmem)
  | case7 here p ps es he hp hp' hc ih =>
    obtain ⟨fs, hfs⟩ := h.directory (ne_of_trail hclear) he
    have hrest := trail_down hp hp' hclear
    rw [child?_isSome he, ← h.same (ne_of_trail hrest)] at hc
    rw [follow_cons hfs, if_neg hp, if_neg hp', if_pos hc]
    exact ih hrest
  | case8 here p ps es he hp hp' hc hall =>
    obtain ⟨fs, hfs⟩ := h.directory (ne_of_trail hclear) he
    rw [child?_isSome he, ← h.same (ne_of_trail (trail_down hp hp' hclear))] at hc
    rw [follow_cons hfs, if_neg hp, if_neg hp', if_neg hc, if_pos hall]
    exact Or.inr ⟨_, _, rfl, rfl, .vacant _ _⟩
  | case9 here p ps es he hp hp' hc hall =>
    obtain ⟨fs, hfs⟩ := h.directory (ne_of_trail hclear) he
    rw [child?_isSome he, ← h.same (ne_of_trail (trail_down hp hp' hclear))] at hc
    rw [follow_cons hfs, if_neg hp, if_neg hp', if_neg hc, if_neg hall]
    exact Or.inl ⟨_, rfl, rfl⟩

/-- **The same is found along a path that is clear.** -/
theorem Without.find (h : Without gone w v) {path : Text} (hclear : Clear gone w path) :
    Alike Spot.Same (w.find path) (v.find path) := by
  unfold Workspace.find
  split
  · exact Or.inl ⟨_, rfl, rfl⟩
  · rw [h.cwd]
    exact h.follow hclear

/-! ## reading -/

theorem Without.entry (h : Without gone w v) {path : Text} (hclear : Clear gone w path) :
    Alike (fun e f => Spot.Same (.found [] e) (.found [] f)) (w.entry path) (v.entry path) := by
  unfold Workspace.entry
  rcases h.find hclear with ⟨e, hw, hv⟩ | ⟨s, s', hw, hv, hs⟩
  · rw [hw, hv]
    exact Or.inl ⟨e, rfl, rfl⟩
  · rw [hw, hv]
    cases hs with
    | file way c => exact Or.inr ⟨_, _, rfl, rfl, .file _ c⟩
    | directory way es fs => exact Or.inr ⟨_, _, rfl, rfl, .directory _ es fs⟩
    | vacant way slash => exact Or.inl ⟨_, rfl, rfl⟩

theorem Without.isDirectory (h : Without gone w v) {path : Text} (hclear : Clear gone w path) :
    v.isDirectory path = w.isDirectory path := by
  unfold Workspace.isDirectory
  rcases h.entry hclear with ⟨e, hw, hv⟩ | ⟨e, f, hw, hv, hs⟩
  · rw [hw, hv]
  · rw [hw, hv]
    cases hs <;> rfl

/-- **The same is read along a path that is clear.** -/
theorem Without.read (h : Without gone w v) {path : Text} (hclear : Clear gone w path) :
    v.read path = w.read path := by
  unfold Workspace.read
  rcases h.entry hclear with ⟨e, hw, hv⟩ | ⟨e, f, hw, hv, hs⟩
  · rw [hw, hv]
  · rw [hw, hv]
    cases hs <;> rfl

/-! ## writing -/

theorem Without.put (h : Without gone w v) {way : List Text} {f : Entry} (hw : w.root.Room way)
    (hv : v.root.Room way) (hf : f.Bare) (hway : ∀ x ∈ gone, x.1 ≠ way) :
    Without gone (w.put way f) (v.put way f) where
  cwd := h.cwd
  there x hx := by
    rw [stand?_put hw hf, if_neg (hway x hx)]
    exact h.there x hx
  away x hx := by
    rw [stand?_put hv hf, if_neg (hway x hx)]
    exact h.away x hx
  same hgone := by
    rw [stand?_put hw hf, stand?_put hv hf, h.same hgone]

/-- **The same is written along a path that is clear.** -/
theorem Without.write (h : Without gone w v) {path : Text} (hclear : Clear gone w path) (t : Text) :
    Alike (Without gone) (w.write path t) (v.write path t) := by
  unfold Workspace.write
  rcases h.find hclear with ⟨e, hw, hv⟩ | ⟨s, s', hw, hv, hs⟩
  · rw [hw, hv]
    exact Or.inl ⟨e, rfl, rfl⟩
  · rw [hw, hv]
    cases hs with
    | file way c =>
      obtain ⟨rfl, hg⟩ := find_found hw
      have hg' := (find_found hv).2
      exact Or.inr ⟨_, _, rfl, rfl, h.put (Entry.Room.of_file (stand?_of_get? hg))
        (Entry.Room.of_file (stand?_of_get? hg')) (Entry.bare_file _) hclear.place⟩
    | directory way es fs => exact Or.inl ⟨_, rfl, rfl⟩
    | vacant way slash =>
      cases slash with
      | true => exact Or.inl ⟨_, rfl, rfl⟩
      | false =>
        have hway : way = w.place path := (find_vacant hw).1
        exact Or.inr ⟨_, _, rfl, rfl, h.put (vacant_room hw).1 (vacant_room hv).1
          (Entry.bare_file _) (hway ▸ hclear.place)⟩

theorem Without.makeDirectory (h : Without gone w v) {path : Text} (hclear : Clear gone w path) :
    Alike (Without gone) (w.makeDirectory path) (v.makeDirectory path) := by
  unfold Workspace.makeDirectory
  rcases h.find hclear with ⟨e, hw, hv⟩ | ⟨s, s', hw, hv, hs⟩
  · rw [hw, hv]
    exact Or.inl ⟨e, rfl, rfl⟩
  · rw [hw, hv]
    cases hs with
    | file way c => exact Or.inl ⟨_, rfl, rfl⟩
    | directory way es fs => exact Or.inl ⟨_, rfl, rfl⟩
    | vacant way slash =>
      have hway : way = w.place path := (find_vacant hw).1
      exact Or.inr ⟨_, _, rfl, rfl, h.put (vacant_room hw).1 (vacant_room hv).1
        Entry.bare_empty (hway ▸ hclear.place)⟩

theorem Without.ensureDirectory (h : Without gone w v) {path : Text} (hclear : Clear gone w path) :
    Alike (Without gone) (w.ensureDirectory path) (v.ensureDirectory path) := by
  unfold Workspace.ensureDirectory
  rcases h.makeDirectory hclear with ⟨e, hw, hv⟩ | ⟨w', v', hw, hv, h'⟩
  · rw [hw, hv]
    simp only [h.isDirectory hclear]
    split
    · exact Or.inr ⟨_, _, rfl, rfl, h⟩
    · exact Or.inl ⟨_, rfl, rfl⟩
  · rw [hw, hv]
    exact Or.inr ⟨_, _, rfl, rfl, h'⟩

/-- both leave workspaces that are so related, and the same error if any -/
def Together {ε : Type} (gone : List (List Text × Content)) (a b : Workspace × Option ε) : Prop :=
  ∃ w' v' e, a = (w', e) ∧ b = (v', e) ∧ Without gone w' v'

theorem Without.together {ε : Type} (h : Without gone w v) (e : Option ε) :
    Together gone (w, e) (v, e) := ⟨w, v, e, rfl, rfl, h⟩

theorem Without.makeDirectoriesIn (n : Nat) (h : Without gone w v) {path : Text}
    (hclear : Clear gone w path) :
    Together gone (w.makeDirectoriesIn n path) (v.makeDirectoriesIn n path) := by
  induction n generalizing path with
  | zero => exact h.together none
  | succ n ih =>
    rw [Workspace.makeDirectoriesIn, Workspace.makeDirectoriesIn]
    split
    · exact h.together none
    · rcases h.makeDirectory hclear with ⟨e, hw, hv⟩ | ⟨w', v', hw, hv, h'⟩
      · rw [hw, hv]
        have hdirectory : Together gone (if w.isDirectory path then (w, none) else (w, some e))
            (if v.isDirectory path then (v, none) else (v, some e)) := by
          rw [h.isDirectory hclear]
          split <;> exact h.together _
        cases e with
        | notFound =>
          cases hp : parent? path with
          | none => exact h.together _
          | some p =>
            -- the directory around it first, which is clear as well
            obtain ⟨w₁, v₁, e, hw₁, hv₁, h₁⟩ := ih (hclear.parent hp)
            have hcwd := (makeDirectoriesIn_wrote n w p).cwd
            rw [hw₁] at hcwd
            simp only [hw₁, hv₁]
            cases e with
            | some e => exact h₁.together _
            | none =>
              simp only
              rcases h₁.ensureDirectory (hclear.cwd_eq hcwd) with
                ⟨e, hw₂, hv₂⟩ | ⟨w₂, v₂, hw₂, hv₂, h₂⟩
              · rw [hw₂, hv₂]
                exact h₁.together _
              · rw [hw₂, hv₂]
                exact h₂.together _
        | alreadyThere => exact hdirectory
        | notDirectory => exact hdirectory
        | isDirectory => exact hdirectory
      · rw [hw, hv]
        exact h'.together _

theorem Without.makeParent (h : Without gone w v) {path : Text} (hclear : Clear gone w path) :
    Together gone (w.makeParent path) (v.makeParent path) := by
  unfold Workspace.makeParent
  cases hp : parent? path with
  | none => exact h.together none
  | some p =>
    obtain ⟨w₁, v₁, e, hw₁, hv₁, h₁⟩ := h.makeDirectoriesIn (p.length + 1) (hclear.parent hp)
    simp only [makeDirectories, hw₁, hv₁]
    cases e <;> exact h₁.together _

theorem Without.writeFile (h : Without gone w v) {path : Text} (hclear : Clear gone w path)
    (t : Text) : Together gone (w.writeFile path t) (v.writeFile path t) := by
  unfold Workspace.writeFile
  rcases h.write hclear t with ⟨e, hw, hv⟩ | ⟨w', v', hw, hv, h'⟩
  · rw [hw, hv]
    exact h.together _
  · rw [hw, hv]
    exact h'.together _

theorem writeFile_cwd (w : Workspace) (path t : Text) : (w.writeFile path t).1.cwd = w.cwd := by
  cases h : w.writeFile path t with
  | mk w' r =>
    cases r with
    | some e => rw [(writeFile_eq_some h).1]
    | none => exact (write_eq_ok (writeFile_eq_none h)).1.cwd

/-- **The same is written of a story**, and with the same error, if its paths are clear. -/
theorem Without.writeStory (h : Without gone w v) (s : Story) {path : Text}
    (hcode : Clear gone w path) (hmap : Clear gone w (Output.mapPath path)) :
    Together gone (w.writeStory s path) (v.writeStory s path) := by
  unfold Workspace.writeStory
  obtain ⟨w₁, v₁, e, hw₁, hv₁, h₁⟩ := h.makeParent hcode
  have hcwd₁ := (w.makeParent_wrote path).cwd
  rw [hw₁] at hcwd₁
  simp only [hw₁, hv₁]
  cases e with
  | some e => exact h₁.together _
  | none =>
    obtain ⟨w₂, v₂, e, hw₂, hv₂, h₂⟩ := h₁.writeFile (hmap.cwd_eq hcwd₁)
      { s.map with file := some (nameOf path) }.render
    have hcwd₂ := w₁.writeFile_cwd (Output.mapPath path)
      { s.map with file := some (nameOf path) }.render
    rw [hw₂] at hcwd₂
    simp only [hw₂, hv₂]
    cases e with
    | some e => exact h₂.together _
    | none => exact h₂.writeFile (hcode.cwd_eq (hcwd₂.trans hcwd₁)) _

end Workspace

end StorySuite
