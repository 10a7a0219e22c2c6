import StorySuite.Output.Write
import StorySuite.Proofs.Files.Workspace

/-!
# What is written

Whatever is done to the files comes down to a list of texts that are written at places, one after
the other, and to directories that are made where nothing was.

* `lastWrite ws way`         the last text that is written at a place;
* `Wrote ws w w'`            all that is done is that `ws` is written and directories are made;
* `write_eq_ok`, `makeDirectoriesIn_eq_none`   what each operation does;
* `makeDirectoriesIn_wrote`, `writeStory_wrote`   and what it does at most, also where it fails;
* `writeStory_eq_none`       **what writing a story does**.
-/

namespace StorySuite

namespace Workspace

open StorySuite.Path

variable {w w' : Workspace}

/-! ## what is written -/

/-- the last text that is written at a place -/
def lastWrite : List (List Text × Content) → List Text → Option Content
  | [], _ => none
  | x :: ws, way => (lastWrite ws way).or (if x.1 = way then some x.2 else none)

theorem lastWrite_append (ws ws' : List (List Text × Content)) (way : List Text) :
    lastWrite (ws ++ ws') way = (lastWrite ws' way).or (lastWrite ws way) := by
  induction ws with
  | nil => simp [lastWrite]
  | cons x ws ih => rw [List.cons_append, lastWrite, lastWrite, ih, Option.or_assoc]

theorem lastWrite_eq_none {ws : List (List Text × Content)} {way : List Text} :
    lastWrite ws way = none ↔ ∀ x ∈ ws, x.1 ≠ way := by
  induction ws with
  | nil => simp [lastWrite]
  | cons x ws ih =>
    by_cases hx : x.1 = way <;> simp [lastWrite, ih, hx]

/-- all that is done to `w` is that `ws` is written and directories are made -/
structure Wrote (ws : List (List Text × Content)) (w w' : Workspace) : Prop where
  cwd : w'.cwd = w.cwd
  proper : w.root.Proper → w'.root.Proper
  written : ∀ {way c}, lastWrite ws way = some c → w'.stand? way = some (.file c)
  kept : ∀ {way}, lastWrite ws way = none → w'.stand? way = w.stand? way ∨
    w.stand? way = none ∧ w'.stand? way = some .directory
  /-- nothing is written over a directory -/
  spared : ∀ {way}, w.stand? way = some .directory → lastWrite ws way = none

theorem Wrote.refl (w : Workspace) : Wrote [] w w := ⟨rfl, id, nofun, fun _ => Or.inl rfl, fun _ => rfl⟩

theorem Wrote.grown {ws : List (List Text × Content)} (h : Wrote ws w w') : Grown w w' where
  cwd := h.cwd
  directory {way} hd := by
    rcases h.kept (h.spared hd) with hk | ⟨hn, -⟩
    · rw [hk, hd]
    · rw [hd] at hn
      cases hn
  file {way c} hf := by
    cases hl : lastWrite ws way with
    | some c' => exact ⟨c', h.written hl⟩
    | none =>
      rcases h.kept hl with hk | ⟨hn, -⟩
      · exact ⟨c, hk.trans hf⟩
      · rw [hf] at hn
        cases hn

theorem Wrote.append {ws ws' : List (List Text × Content)} {w₁ w₂ w₃ : Workspace}
    (h : Wrote ws w₁ w₂) (h' : Wrote ws' w₂ w₃) : Wrote (ws ++ ws') w₁ w₃ where
  cwd := h'.cwd.trans h.cwd
  proper hp := h'.proper (h.proper hp)
  written {way c} hl := by
    rw [lastWrite_append] at hl
    cases hl' : lastWrite ws' way with
    | some c' =>
      rw [hl'] at hl
      obtain rfl : c' = c := by simpa using hl
      exact h'.written hl'
    | none =>
      rw [hl', Option.none_or] at hl
      rcases h'.kept hl' with hk | ⟨hn, -⟩
      · rw [hk, h.written hl]
      · rw [h.written hl] at hn
        cases hn
  kept {way} hl := by
    rw [lastWrite_append] at hl
    obtain ⟨hl', hl⟩ : lastWrite ws' way = none ∧ lastWrite ws way = none := by simpa using hl
    rcases h.kept hl with hk | ⟨hn, hd⟩
    · rw [← hk]
      exact h'.kept hl'
    · exact Or.inr ⟨hn, h'.grown.directory hd⟩
  spared {way} hd := by
    rw [lastWrite_append, h'.spared (h.grown.directory hd), h.spared hd]
    rfl

/-! ## single operations -/

/-- an entry that is put where something is or may be -/
theorem stand?_put {way : List Text} {f : Entry} (h : w.root.Room way) (hf : f.Bare)
    (way' : List Text) :
    (w.put way f).stand? way' = if way' = way then some f.stand else w.stand? way' :=
  Entry.stand?_put h hf way'

theorem wrote_put_file {way : List Text} {t : Text} (h : w.root.Room way)
    (hd : w.stand? way ≠ some .directory) (hn : w.root.Proper → ∀ n ∈ way, IsName n) :
    Wrote [(way, .text t)] w (w.put way (.file (.text t))) := by
  have hs := stand?_put h (Entry.bare_file (.text t))
  have hl : ∀ v, lastWrite [(way, .text t)] v = if way = v then some (.text t) else none :=
    fun _ => rfl
  refine ⟨rfl, fun hp => hp.put (Entry.proper_file _) (hn hp), fun {v c} hv => ?_, fun {v} hv => ?_,
    fun {v} hv => ?_⟩
  · rw [hl] at hv
    split at hv
    · next hw =>
      obtain rfl := Option.some.inj hv
      rw [hs, if_pos hw.symm]
      rfl
    · cases hv
  · rw [hl] at hv
    split at hv
    · cases hv
    · next hw => exact Or.inl (by rw [hs, if_neg (Ne.symm hw)])
  · rw [hl, if_neg]
    rintro rfl
    exact hd hv

theorem wrote_put_empty {way : List Text} (h : w.root.Room way) (hd : w.stand? way = none)
    (hn : w.root.Proper → ∀ n ∈ way, IsName n) : Wrote [] w (w.put way .empty) := by
  have hs := stand?_put h Entry.bare_empty
  refine ⟨rfl, fun hp => hp.put Entry.proper_empty (hn hp), nofun, fun {v} _ => ?_, fun _ => rfl⟩
  by_cases hv : v = way
  · subst hv
    exact Or.inr ⟨hd, by rw [hs, if_pos rfl]; rfl⟩
  · exact Or.inl (by rw [hs, if_neg hv])

/-- what can be put where nothing was found -/
theorem vacant_room {path : Text} {way : List Text} {slash : Bool}
    (h : w.find path = .ok (.vacant way slash)) :
    w.root.Room way ∧ (w.root.Proper → ∀ n ∈ way, IsName n) := by
  obtain ⟨-, hn, dir, n, rfl, hd, hname⟩ := find_vacant h
  refine ⟨Entry.Room.of_parent hd hn, fun hp m hm => ?_⟩
  rcases List.mem_append.mp hm with hm | hm
  · exact hp.isName hd m hm
  · rwa [List.mem_singleton.mp hm]

/-- a file is written at the place of its path -/
theorem write_eq_ok {path t : Text} (h : w.write path t = .ok w') :
    Wrote [(w.place path, .text t)] w w' ∧ w'.isFile path = true := by
  have key : ∀ s, w.find path = .ok s → s.slash = false → w.root.Room s.way →
      w.stand? s.way ≠ some .directory → (w.root.Proper → ∀ n ∈ s.way, IsName n) →
      w' = w.put s.way (.file (.text t)) →
      Wrote [(w.place path, .text t)] w w' ∧ w'.isFile path = true := by
    rintro s hf hs hroom hd hn rfl
    have hw := wrote_put_file (t := t) hroom hd hn
    have hstand : (w.put s.way (.file (.text t))).stand? s.way = some (.file (.text t)) :=
      hw.written (by simp [lastWrite])
    have hway : s.way = w.place path := by
      cases s with
      | found way e => exact (find_found hf).1
      | vacant way slash => exact (find_vacant hf).1
    obtain ⟨e, he⟩ := hw.grown.find hf hstand (by simp [hs])
    rw [← hway]
    exact ⟨hw, isFile_of_stand? he hstand⟩
  unfold write at h
  split at h
  · cases h
  · cases h
  · next way c hf =>
    have hs := stand?_of_get? (find_found hf).2
    refine key _ hf rfl (Entry.Room.of_file hs) ?_ (fun hp => hp.isName hs) (Except.ok.inj h).symm
    show w.stand? way ≠ some .directory
    rw [hs]
    exact nofun
  · cases h
  · next way hf =>
    obtain ⟨hroom, hn⟩ := vacant_room hf
    refine key _ hf rfl hroom ?_ hn (Except.ok.inj h).symm
    show w.stand? way ≠ some .directory
    rw [(find_vacant hf).2.1]
    exact nofun

/-- a file that is there can be written, and then nothing else changes -/
theorem write_isFile {path : Text} (h : w.isFile path = true) (t : Text) :
    ∃ w', w.write path t = .ok w' ∧ ∀ way, w.stand? way = none → w'.stand? way = none := by
  obtain ⟨way, c, hf⟩ := isFile_iff.mp h
  have hs := stand?_of_get? (find_found hf).2
  refine ⟨_, by rw [write, hf], fun v hv => ?_⟩
  rw [stand?_put (Entry.Room.of_file hs) (Entry.bare_file _), if_neg]
  · exact hv
  · rintro rfl
    rw [hs] at hv
    cases hv

theorem makeDirectory_eq_ok {path : Text} (h : w.makeDirectory path = .ok w') :
    Wrote [] w w' ∧ w'.isDirectory path = true := by
  unfold makeDirectory at h
  split at h
  · cases h
  · cases h
  · next way slash hf =>
    obtain rfl := Except.ok.inj h
    obtain ⟨hroom, hn⟩ := vacant_room hf
    have hw := wrote_put_empty hroom (find_vacant hf).2.1 hn
    have hd : (w.put way .empty).stand? way = some .directory := by
      rw [stand?_put hroom Entry.bare_empty, if_pos rfl]
      rfl
    obtain ⟨e, he⟩ := hw.grown.find hf hd fun _ => rfl
    exact ⟨hw, isDirectory_of_stand? he hd⟩

theorem makeDirectory_isDirectory {path : Text} (h : w.isDirectory path = true) :
    w.makeDirectory path = .error .alreadyThere := by
  obtain ⟨way, es, hf⟩ := isDirectory_iff.mp h
  rw [makeDirectory, hf]

theorem ensureDirectory_eq_ok {path : Text} (h : w.ensureDirectory path = .ok w') :
    Wrote [] w w' ∧ w'.isDirectory path = true := by
  unfold ensureDirectory at h
  split at h
  · next w₁ hm =>
    obtain rfl := Except.ok.inj h
    exact makeDirectory_eq_ok hm
  · split at h
    · next hd =>
      obtain rfl := Except.ok.inj h
      exact ⟨Wrote.refl w, hd⟩
    · cases h

/-! ## directories around a path -/

theorem makeDirectoriesIn_eq_none {n : Nat} {path : Text} (hn : path.length < n)
    (h : makeDirectoriesIn n w path = (w', none)) :
    Wrote [] w w' ∧ (path = [] ∨ w'.isDirectory path = true) := by
  induction n generalizing w w' path with
  | zero => omega
  | succ n ih =>
    rw [makeDirectoriesIn] at h
    split at h
    · next hp =>
      obtain rfl : w = w' := congrArg Prod.fst h
      exact ⟨Wrote.refl w, Or.inl (List.isEmpty_iff.mp hp)⟩
    · split at h
      · next w₁ hm =>
        obtain rfl : w₁ = w' := congrArg Prod.fst h
        exact (makeDirectory_eq_ok hm).imp id Or.inr
      · split at h
        · cases h
        · next p hp =>
          have hlt := length_parent? hp
          split at h
          · cases h
          · next w₁ hm =>
            have hw₁ := (ih (by omega) hm).1
            split at h
            · next w₂ he =>
              obtain rfl : w₂ = w' := congrArg Prod.fst h
              obtain ⟨hw₂, hd⟩ := ensureDirectory_eq_ok he
              exact ⟨hw₁.append hw₂, Or.inr hd⟩
            · cases h
      · split at h
        · next hd =>
          obtain rfl : w = w' := congrArg Prod.fst h
          exact ⟨Wrote.refl w, Or.inr hd⟩
        · cases h

/-- nothing but directories is made, whether all of them are made or not -/
theorem makeDirectoriesIn_wrote (n : Nat) (w : Workspace) (path : Text) :
    Wrote [] w (makeDirectoriesIn n w path).1 := by
  induction n generalizing w path with
  | zero => exact Wrote.refl w
  | succ n ih =>
    rw [makeDirectoriesIn]
    split
    · exact Wrote.refl w
    · split
      · next hm => exact (makeDirectory_eq_ok hm).1
      · split
        · exact Wrote.refl w
        · next p hp =>
          have hw := ih w p
          split
          · next hm =>
            rw [hm] at hw
            exact hw
          · next hm =>
            rw [hm] at hw
            split
            · next he => exact hw.append (ensureDirectory_eq_ok he).1
            · exact hw
      · split <;> exact Wrote.refl w

theorem makeDirectories_isDirectory {path : Text} (h : path = [] ∨ w.isDirectory path = true) :
    w.makeDirectories path = (w, none) := by
  rw [makeDirectories, makeDirectoriesIn]
  rcases h with rfl | h
  · rfl
  · rw [makeDirectory_isDirectory h]
    simp only
    rw [if_pos h, ite_self]

/-! ## test modules -/

def storyWrites (w : Workspace) (s : Story) (path : Text) : List (List Text × Content) :=
  [(w.place (Output.mapPath path), .text { s.map with file := some (nameOf path) }.render),
    (w.place path, .text (Output.withMapComment s.code (nameOf (Output.mapPath path))))]

/-- what has to be there for a story to be written where one was written -/
structure Ready (w : Workspace) (path : Text) : Prop where
  parent : ∀ p, parent? path = some p → p = [] ∨ w.isDirectory p = true
  map : w.isFile (Output.mapPath path) = true
  code : w.isFile path = true

theorem Ready.grown {path : Text} (h : Ready w path) (hw : Grown w w') : Ready w' path where
  parent p hp := (h.parent p hp).imp id hw.isDirectory
  map := hw.isFile h.map
  code := hw.isFile h.code

theorem writeFile_eq_none {path t : Text} (h : w.writeFile path t = (w', none)) :
    w.write path t = .ok w' := by
  unfold writeFile at h
  split at h
  · next w₁ hw =>
    obtain rfl : w₁ = w' := congrArg Prod.fst h
    exact hw
  · cases h

theorem makeParent_eq_none {path : Text} (h : w.makeParent path = (w', none)) :
    Wrote [] w w' ∧ ∀ p, parent? path = some p → p = [] ∨ w'.isDirectory p = true := by
  unfold makeParent at h
  split at h
  · next hp =>
    obtain rfl : w = w' := congrArg Prod.fst h
    exact ⟨Wrote.refl w, fun p h => by rw [hp] at h; cases h⟩
  · next p hp =>
    split at h
    · cases h
    · next w₁ hm =>
      obtain rfl : w₁ = w' := congrArg Prod.fst h
      obtain ⟨hw, hd⟩ := makeDirectoriesIn_eq_none (Nat.lt_succ_self _) hm
      refine ⟨hw, fun q hq => ?_⟩
      obtain rfl : p = q := Option.some.inj (hp.symm.trans hq)
      exact hd

theorem makeParent_wrote (w : Workspace) (path : Text) : Wrote [] w (w.makeParent path).1 := by
  unfold makeParent
  split
  · exact Wrote.refl w
  · next p hp =>
    have hw := makeDirectoriesIn_wrote (p.length + 1) w p
    split
    · next hm =>
      rw [makeDirectories] at hm
      rw [hm] at hw
      exact hw
    · next hm =>
      rw [makeDirectories] at hm
      rw [hm] at hw
      exact hw

theorem makeParent_eq_some {path : Text} {e : WriteError} (h : w.makeParent path = (w', some e)) :
    ∃ p cause, e = .create p cause := by
  unfold makeParent at h
  split at h
  · cases h
  · next p _ =>
    split at h
    · exact ⟨p, _, (Option.some.inj (Prod.mk.inj h).2).symm⟩
    · cases h

/-- a file that cannot be written is left as it is -/
theorem writeFile_eq_some {path t : Text} {e : WriteError} (h : w.writeFile path t = (w', some e)) :
    w' = w ∧ ∃ cause, e = .write path cause := by
  unfold writeFile at h
  split at h
  · cases h
  · next cause _ =>
    obtain ⟨rfl, he⟩ := Prod.mk.inj h
    exact ⟨rfl, cause, (Option.some.inj he).symm⟩

/-- whether a story is written or not, nothing is written but at its two places -/
theorem writeStory_wrote (w : Workspace) (s : Story) (path : Text) :
    ∃ ws, Wrote ws w (w.writeStory s path).1 ∧
      ∀ x ∈ ws, x.1 = w.place path ∨ x.1 = w.place (Output.mapPath path) := by
  have hparent := w.makeParent_wrote path
  unfold writeStory
  simp only
  split
  · next h₁ =>
    rw [h₁] at hparent
    exact ⟨[], hparent, nofun⟩
  · next w₁ h₁ =>
    rw [h₁] at hparent
    split
    · next h₂ =>
      obtain ⟨rfl, -⟩ := writeFile_eq_some h₂
      exact ⟨[], hparent, nofun⟩
    · next w₂ h₂ =>
      have hmap := (write_eq_ok (writeFile_eq_none h₂)).1
      rw [hparent.grown.place_eq] at hmap
      have hw₂ := hparent.append hmap
      cases h₃ : w₂.writeFile path (Output.withMapComment s.code (nameOf (Output.mapPath path))) with
      | mk w₃ r =>
        cases r with
        | some e =>
          obtain ⟨rfl, -⟩ := writeFile_eq_some h₃
          exact ⟨_, hw₂, by simp⟩
        | none =>
          have hcode := (write_eq_ok (writeFile_eq_none h₃)).1
          rw [hw₂.grown.place_eq] at hcode
          exact ⟨_, hw₂.append hcode, by simp⟩

/-- **A story that is written leaves its test module and its source map, and nothing else but
directories.** -/
theorem writeStory_eq_none {s : Story} {path : Text} (h : w.writeStory s path = (w', none)) :
    Wrote (w.storyWrites s path) w w' ∧ Ready w' path := by
  unfold writeStory at h
  simp only at h
  split at h
  · cases h
  · next w₁ h₁ =>
    obtain ⟨hw₁, hp⟩ := makeParent_eq_none h₁
    split at h
    · cases h
    · next w₂ h₂ =>
      obtain ⟨hw₂, hm⟩ := write_eq_ok (writeFile_eq_none h₂)
      obtain ⟨hw₃, hc⟩ := write_eq_ok (writeFile_eq_none h)
      rw [hw₁.grown.place_eq] at hw₂
      rw [hw₂.grown.place_eq, hw₁.grown.place_eq] at hw₃
      refine ⟨hw₁.append (hw₂.append hw₃), ?_, hw₃.grown.isFile hm, hc⟩
      exact fun p hq => (hp p hq).imp id fun hd => hw₃.grown.isDirectory (hw₂.grown.isDirectory hd)

/-- it can be written once more, and then nothing is made anew -/
theorem Ready.writeStory {path : Text} (h : Ready w path) (s : Story) :
    ∃ w', w.writeStory s path = (w', none) ∧
      ∀ way, w.stand? way = none → w'.stand? way = none := by
  have hp : w.makeParent path = (w, none) := by
    unfold makeParent
    split
    · rfl
    · next p hp => rw [makeDirectories_isDirectory (h.parent p hp)]
  obtain ⟨w₁, h₁, hn₁⟩ := write_isFile h.map { s.map with file := some (nameOf path) }.render
  obtain ⟨w₂, h₂, hn₂⟩ := write_isFile ((write_eq_ok h₁).1.grown.isFile h.code)
    (Output.withMapComment s.code (nameOf (Output.mapPath path)))
  refine ⟨w₂, ?_, fun way hw => hn₂ way (hn₁ way hw)⟩
  simp only [Workspace.writeStory, hp, writeFile, h₁, h₂]

end Workspace

end StorySuite
