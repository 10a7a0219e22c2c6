import StorySuite.Proofs.Command.Build
import StorySuite.Proofs.SourceMap.Reading

/-!
# Stories that are written, and those that cannot be

A story is written in three steps: the directories around it, its source map, its code.  Directories
that are made stay, and so does the source map of a story whose code cannot be written; nothing else
is left behind where a step fails.

* `exists_name_of_write`   a path that can be written to ends with a name;
* `SameFiles`              files hold what they held, but for some places;
* `writeStory_outcome`     **what writing a story comes to**.
-/

namespace StorySuite

namespace Workspace

open StorySuite.Path

variable {w w' : Workspace}

/-! ## names -/

theorem get?_dropLast {here : List Text} {es : List (Text × Entry)}
    (h : w.root.get? here = some (.directory es)) :
    ∃ fs, w.root.get? here.dropLast = some (.directory fs) := by
  rcases List.eq_nil_or_concat here with rfl | ⟨dir, n, rfl⟩
  · exact ⟨es, h⟩
  · rw [List.concat_eq_append] at h ⊢
    rw [List.dropLast_concat]
    have hs := Entry.stand?_of_append (b := [n]) (by simp) (stand?_of_get? h)
    obtain ⟨e, he, hd⟩ := exists_get? hs
    cases e with
    | directory fs => exact ⟨fs, he⟩
    | file c => cases hd

theorem follow_last {here : List Text} {ps : List Text} {s : Spot} (hps : ps ≠ [])
    (h : w.follow here ps = .ok s) (hs : s.slash = false)
    (hd : ∀ way es, s ≠ .found way (.directory es)) :
    ∃ n, ps.getLast? = some n ∧ Component.ofPiece? n = some (.named n) := by
  -- where only pieces without a name are left, the path ends in a directory
  have hend : ∀ {here es}, w.root.get? here = some (.directory es) →
      w.follow here [] = .ok s → False := by
    intro here es he h
    rw [Workspace.follow, he] at h
    exact hd here es (Except.ok.inj h).symm
  have hnext : ∀ {p q : Text} {ps : List Text}, (q :: ps).getLast? = some p →
      ∀ r, (r :: q :: ps).getLast? = some p := fun h _ => by rw [List.getLast?_cons_cons, h]
  fun_induction Workspace.follow w here ps with
  | case1 here e he => exact absurd rfl hps
  | case5 here p ps es he hp ih =>
    cases ps with
    | nil => exact (hend he h).elim
    | cons q ps =>
      obtain ⟨n, hn, hname⟩ := ih (List.cons_ne_nil _ _) h
      exact ⟨n, hnext hn p, hname⟩
  | case6 here ps es he hp ih =>
    cases ps with
    | nil =>
      obtain ⟨fs, hfs⟩ := get?_dropLast he
      exact (hend hfs h).elim
    | cons q ps =>
      obtain ⟨n, hn, hname⟩ := ih (List.cons_ne_nil _ _) h
      exact ⟨n, hnext hn _, hname⟩
  | case7 here p ps es he hp hp' hc ih =>
    cases ps with
    | nil => exact ⟨p, rfl, by rw [Component.ofPiece?, if_neg hp, if_neg hp']⟩
    | cons q ps =>
      obtain ⟨n, hn, hname⟩ := ih (List.cons_ne_nil _ _) h
      exact ⟨n, hnext hn p, hname⟩
  | case8 here p ps es he hp hp' hc hall =>
    obtain rfl : Spot.vacant (here ++ [p]) (!ps.isEmpty) = s := by simpa using h
    obtain rfl : ps = [] := by simpa [Spot.slash] using hs
    exact ⟨p, rfl, by rw [Component.ofPiece?, if_neg hp, if_neg hp']⟩
  | case2 => cases h
  | case3 => cases h
  | case4 => cases h
  | case9 => cases h

theorem exists_last_field (t : Text) : ∃ u f, t = u ++ f ∧ Front u ∧
    (Text.fields '/' t).getLast? = some f := by
  induction t using Text.fields_induction '/' with
  | one f hf => exact ⟨[], f, rfl, Or.inl rfl, by rw [Text.fields_of_not_mem hf]; rfl⟩
  | more f t hf ih =>
    obtain ⟨u, g, ht, hu, hg⟩ := ih
    refine ⟨f ++ '/' :: u, g, by rw [ht]; simp, ?_, ?_⟩
    · rcases hu with rfl | ⟨v, rfl⟩
      · exact Or.inr ⟨f, rfl⟩
      · exact Or.inr ⟨f ++ '/' :: v, by simp⟩
    · rw [Text.fields_append, List.getLast?_append, hg]
      rfl

/-- **A path that can be written to ends with a name.** -/
theorem exists_name_of_write {path t : Text} (h : w.write path t = .ok w') :
    ∃ u n, path = u ++ n ∧ Front u ∧ IsName n := by
  obtain ⟨u, n, rfl, hu, hlast⟩ := exists_last_field path
  have key : ∀ s, w.find (u ++ n) = .ok s → s.slash = false →
      (∀ way es, s ≠ .found way (.directory es)) → IsName n := by
    intro s hs hslash hd
    unfold find at hs
    split at hs
    · cases hs
    · obtain ⟨m, hm, hname⟩ := follow_last (Text.fields_ne_nil _) hs hslash hd
      obtain rfl := Option.some.inj (hlast.symm.trans hm)
      exact ⟨hname, Text.not_mem_of_mem_fields (List.mem_of_getLast? hm)⟩
  refine ⟨u, n, rfl, hu, ?_⟩
  unfold write at h
  split at h
  · cases h
  · cases h
  · next hf => exact key _ hf rfl nofun
  · cases h
  · next hf => exact key _ hf rfl nofun

theorem mapPath_ne (path : Text) : Output.mapPath path ≠ path := by
  intro h
  have hlen := congrArg List.length h
  rw [Output.mapPath, List.length_append] at hlen
  exact absurd hlen (Nat.ne_of_gt (Nat.lt_add_of_pos_right (by decide)))

/-- what is written is named after the path, and a source map is no code -/
theorem exists_names (v : Workspace) {path t : Text} (h : w.write path t = .ok w') :
    ∃ n, fileName? path = some n ∧ fileName? (Output.mapPath path) = some (Output.mapPath n) ∧
      v.place path ≠ v.place (Output.mapPath path) := by
  obtain ⟨u, n, rfl, hu, hn⟩ := exists_name_of_write h
  have hmap : Output.mapPath (u ++ n) = u ++ Output.mapPath n := List.append_assoc _ _ _
  have hmapName := Output.isName_mapPath hn
  rw [hmap]
  refine ⟨n, ?_, ?_, fun he => ?_⟩
  · rw [fileName?_eq_some, steps_front_name hu hn, List.getLast?_concat]
  · rw [fileName?_eq_some, steps_front_name hu hmapName, List.getLast?_concat]
  · rw [place, place, walk_front_name _ hu hn, walk_front_name _ hu hmapName] at he
    exact mapPath_ne n (append_singleton_inj he).2.symm

/-! ## what writing a story comes to -/

/-- files hold what they held, and there are no others, but for some places -/
def SameFiles (apart : List (List Text)) (w w' : Workspace) : Prop :=
  ∀ way, way ∉ apart → ∀ c, w'.stand? way = some (.file c) ↔ w.stand? way = some (.file c)

theorem Wrote.sameFiles {ws : List (List Text × Content)} (h : Wrote ws w w') :
    SameFiles (ws.map (·.1)) w w' := by
  intro way hway c
  have hl : lastWrite ws way = none := lastWrite_eq_none.mpr fun x hx he =>
    hway (he ▸ List.mem_map_of_mem hx)
  rcases h.kept hl with hk | ⟨hn, hd⟩
  · rw [hk]
  · rw [hn, hd]
    exact ⟨nofun, nofun⟩

/-- the source map of a story can be read next to its code, whose name it says -/
def MapLies (w : Workspace) (s : Story) (path : Text) : Prop :=
  ∃ t, w.read (Output.mapPath path) = .ok t ∧
    SourceMap.read t = .ok { s.map with file := some (nameOf path) }

/-- what writing a story comes to -/
inductive Outcome (w : Workspace) (s : Story) (path : Text) :
    Workspace × Option WriteError → Prop
  /-- both files are written and no others -/
  | written {w' : Workspace} {n : Text} (name : Path.fileName? path = some n)
      (code : w'.read path = .ok (Output.withMapComment s.code (Output.mapPath n)))
      (map : MapLies w' s path)
      (files : SameFiles [w.place path, w.place (Output.mapPath path)] w w') :
      Outcome w s path (w', none)
  /-- a step before the last fails: no file is written -/
  | refused {w' : Workspace} {e : WriteError} (early : ∀ cause, e ≠ .write path cause)
      (files : SameFiles [] w w') : Outcome w s path (w', some e)
  /-- the last step fails: the source map is written and no other file -/
  | mapOnly {w' : Workspace} {cause : FileError} (map : MapLies w' s path)
      (files : SameFiles [w.place (Output.mapPath path)] w w') :
      Outcome w s path (w', some (.write path cause))

theorem mapLies_of_write {s : Story} {path : Text}
    (h : w.write (Output.mapPath path) { s.map with file := some (nameOf path) }.render = .ok w') :
    MapLies w' s path := by
  obtain ⟨hw, hf⟩ := write_eq_ok h
  refine ⟨_, read_eq_ok_iff.mpr ⟨hf, ?_⟩, SourceMap.read_render _⟩
  rw [hw.grown.place_eq]
  exact hw.written (by simp [lastWrite])

theorem MapLies.kept {ws : List (List Text × Content)} {s : Story} {path : Text}
    (h : MapLies w s path) (hw : Wrote ws w w')
    (hl : lastWrite ws (w.place (Output.mapPath path)) = none) : MapLies w' s path := by
  obtain ⟨t, ht, hread⟩ := h
  exact ⟨t, Build.read_of_lastWrite hw ht hl, hread⟩

/-- **A story is written as a whole or no file is touched**, unless writing its code is what fails:
then its source map is there already. -/
theorem writeStory_outcome (w : Workspace) (s : Story) (path : Text) :
    Outcome w s path (w.writeStory s path) := by
  have hparent := w.makeParent_wrote path
  unfold writeStory
  simp only
  split
  · next w₁ e h₁ =>
    rw [h₁] at hparent
    obtain ⟨p, cause, rfl⟩ := makeParent_eq_some h₁
    exact .refused nofun hparent.sameFiles
  · next w₁ h₁ =>
    rw [h₁] at hparent
    split
    · next w₂ e h₂ =>
      obtain ⟨rfl, cause, rfl⟩ := writeFile_eq_some h₂
      refine .refused (fun _ he => mapPath_ne path ?_) hparent.sameFiles
      exact (WriteError.write.inj he).1
    · next w₂ h₂ =>
      have hmap := mapLies_of_write (writeFile_eq_none h₂)
      have hw₂ := (write_eq_ok (writeFile_eq_none h₂)).1
      rw [hparent.grown.place_eq] at hw₂
      -- the code is written last: where that fails, the map is there
      cases h₃ : w₂.writeFile path (Output.withMapComment s.code (nameOf (Output.mapPath path))) with
      | mk w₃ r =>
        cases r with
        | some e =>
          obtain ⟨rfl, cause, rfl⟩ := writeFile_eq_some h₃
          exact .mapOnly hmap (hparent.append hw₂).sameFiles
        | none =>
          obtain ⟨hw₃, hf⟩ := write_eq_ok (writeFile_eq_none h₃)
          rw [hw₂.grown.place_eq, hparent.grown.place_eq] at hw₃
          obtain ⟨n, hname, hmapName, hne⟩ := exists_names w (writeFile_eq_none h₃)
          rw [nameOf, hmapName, Option.getD_some] at hw₃
          have hall := hparent.append (hw₂.append hw₃)
          refine .written hname ?_ (hmap.kept hw₃ ?_) fun way hway => hall.sameFiles way ?_
          · refine read_eq_ok_iff.mpr ⟨hf, ?_⟩
            rw [hall.grown.place_eq]
            exact hw₃.written (by simp [lastWrite])
          · rw [(hparent.append hw₂).grown.place_eq]
            simpa [lastWrite] using hne
          · simpa [or_comm] using hway

/-- a directory that stands where a test module is to go -/
def directoryInPlace : Workspace :=
  ⟨.directory [("A.stories.ts".toList, .directory [])], []⟩

/-- the source map of a story whose code cannot be written stays -/
theorem writeStory_leaves_map : ∃ s w', plainProject.transform "A.stories.ts" "export default {};\n" =
      .ok (.story s) ∧
    directoryInPlace.writeStory s "A.stories.ts" = (w', some (.write "A.stories.ts" .isDirectory)) ∧
    directoryInPlace.stand? ["A.stories.ts.map"] = none ∧
    ∃ c, w'.stand? ["A.stories.ts.map"] = some (.file c) := by
  have hstory : (match plainProject.transform "A.stories.ts" "export default {};\n" with
      | .ok (.story _) => true
      | _ => false) = true := by decide +kernel
  split at hstory
  · next s hs => exact ⟨s, _, hs, rfl, rfl, _, rfl⟩
  · cases hstory

end Workspace

end StorySuite
