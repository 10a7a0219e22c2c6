import Mathlib.Order.Defs.PartialOrder
import StorySuite.Proofs.SourceMap.Trace

/-!
# The order of segments

Positions grow with the text in front of them, so the segments of a patched text come in the order
of their marks.  Two of them can only meet where a mark is left without a character of its own,
which is what a replacement by nothing does.

* `Position.behind_lt`      a text that goes on ends further on;
* `Chunk.marks_ascending`   the marks of one chunk, and where they lie;
* `marksFrom_weakly`        marks never go back;
* `marksFrom_ascending`     they go on, if nothing comes behind a void chunk (`Chunk.VoidLast`);
* `Patch.voidLast`          **and only then**, unless a mark is to lie in an insert;
* `SourceMap.decode?_ascending`   **when the segments of a source map are told apart by their
                                  positions, and none of them stands in inserted text**;
* `SourceMap.decode?_meeting`     two replacements by nothing, whose segments do not.
-/

namespace StorySuite

namespace Position

/-- positions in the order of the text -/
instance : Preorder Position where
  le p q := p.line < q.line ∨ p.line = q.line ∧ p.column ≤ q.column
  lt p q := p.line < q.line ∨ p.line = q.line ∧ p.column < q.column
  le_refl p := Or.inr ⟨rfl, Nat.le_refl _⟩
  le_trans p q r h1 h2 := by
    show p.line < r.line ∨ p.line = r.line ∧ p.column ≤ r.column
    change p.line < q.line ∨ p.line = q.line ∧ p.column ≤ q.column at h1
    change q.line < r.line ∨ q.line = r.line ∧ q.column ≤ r.column at h2
    omega
  lt_iff_le_not_ge p q := by
    show p.line < q.line ∨ p.line = q.line ∧ p.column < q.column ↔
      (p.line < q.line ∨ p.line = q.line ∧ p.column ≤ q.column) ∧
        ¬ (q.line < p.line ∨ q.line = p.line ∧ q.column ≤ p.column)
    omega

theorem lt_iff {p q : Position} :
    p < q ↔ p.line < q.line ∨ p.line = q.line ∧ p.column < q.column := Iff.rfl

instance (p q : Position) : Decidable (p < q) := decidable_of_iff _ lt_iff.symm

theorem lt_after (p : Position) (c : Char) : p < p.after c := by
  have hc : 0 < Text.charUnits c := by
    unfold Text.charUnits
    split <;> omega
  rw [lt_iff, after]
  split
  · exact Or.inl (Nat.lt_succ_self _)
  · exact Or.inr ⟨rfl, Nat.lt_add_of_pos_right hc⟩

theorem le_through (p : Position) (s : Text) : p ≤ p.through s := by
  induction s generalizing p with
  | nil => exact le_refl p
  | cons c s ih =>
    rw [through_cons]
    exact le_trans (le_of_lt (lt_after p c)) (ih (p.after c))

theorem behind_append (s u : Text) : behind (s ++ u) = (behind s).through u := by
  rw [← through_zero, ← through_zero, through_append]

theorem behind_le (s u : Text) : behind s ≤ behind (s ++ u) := by
  rw [behind_append]
  exact le_through _ u

/-- **A text that goes on ends further on.** -/
theorem behind_lt (s : Text) {u : Text} (hu : u ≠ []) : behind s < behind (s ++ u) := by
  cases u with
  | nil => exact absurd rfl hu
  | cons c u =>
    rw [behind_append, through_cons]
    exact lt_of_lt_of_le (lt_after _ c) (le_through _ u)

end Position

open Position

/-! ## marks in order -/

namespace Chunk

/-- nothing stands in the place of what there was -/
def isVoid : Chunk → Bool
  | replaced _ s => s.isEmpty
  | _ => false

variable {t done : Text} {c : Chunk} {cs : List Chunk}

theorem tokenStarts_ascending (before : Option Char) (s : Text) :
    (s.tokenStarts before).Pairwise (· < ·) :=
  List.pairwise_lt_range.filter _

/-- a place inside a text, and the places in front of it -/
theorem behind_take_lt (done : Text) {s : Text} {i j : Nat} (hij : i < j) (hj : j ≤ s.length) :
    behind (done ++ List.take i s) < behind (done ++ List.take j s) := by
  have hsplit : List.take j s = List.take i s ++ List.drop i (List.take j s) := by
    have h := (List.take_append_drop i (List.take j s)).symm
    rwa [List.take_take, Nat.min_eq_left (Nat.le_of_lt hij)] at h
  rw [hsplit, ← List.append_assoc]
  apply behind_lt
  intro h
  have hlen := congrArg List.length h
  rw [List.length_drop, List.length_take, List.length_nil] at hlen
  omega

/-- **The marks of a chunk ascend**, and each of them lies in the chunk unless it is void. -/
theorem marks_ascending (t done : Text) (c : Chunk) :
    (c.marks t done).Pairwise (fun m n => behind m.generated < behind n.generated) ∧
      ∀ m ∈ c.marks t done, behind done ≤ behind m.generated ∧
        behind m.generated ≤ behind (done ++ c.text) ∧
        (c.isVoid = false → behind m.generated < behind (done ++ c.text)) := by
  cases c with
  | copied a s =>
    have hat : ∀ i ∈ s.tokenStarts none, i < s.length := fun i hi => mem_tokenStarts hi
    constructor
    · show ((s.tokenStarts none).map _).Pairwise _
      rw [List.pairwise_map]
      apply (tokenStarts_ascending none s).imp_of_mem
      intro i j _ hj hij
      exact behind_take_lt done hij (Nat.le_of_lt (hat j hj))
    · intro m hm
      obtain ⟨i, hi, rfl⟩ := List.mem_map.mp hm
      have hlt := behind_take_lt done (hat i hi) (Nat.le_refl _)
      rw [List.take_length] at hlt
      exact ⟨behind_le done _, le_of_lt hlt, fun _ => hlt⟩
  | replaced a s =>
    refine ⟨List.pairwise_singleton _ _, ?_⟩
    intro m hm
    rw [List.mem_singleton.mp hm]
    refine ⟨le_refl _, behind_le done s, ?_⟩
    intro hs
    apply behind_lt
    rintro rfl
    cases hs
  | inserted s =>
    refine ⟨List.Pairwise.nil, ?_⟩
    intro m hm
    cases hm

/-- **Marks never go back**, and none of them lies behind the text. -/
theorem marksFrom_weakly (t done : Text) (cs : List Chunk) :
    (marksFrom t done cs).Pairwise (fun m n => behind m.generated ≤ behind n.generated) ∧
      ∀ m ∈ marksFrom t done cs, behind done ≤ behind m.generated := by
  induction cs generalizing done with
  | nil => exact ⟨List.Pairwise.nil, fun m hm => absurd hm List.not_mem_nil⟩
  | cons c cs ih =>
    obtain ⟨h1, h2⟩ := marks_ascending t done c
    obtain ⟨h3, h4⟩ := @ih (done ++ c.text)
    constructor
    · apply List.pairwise_append.mpr
      refine ⟨h1.imp fun h => le_of_lt h, h3, ?_⟩
      intro m hm n hn
      exact le_trans (h2 m hm).2.1 (h4 n hn)
    · intro m hm
      rcases List.mem_append.mp hm with hm | hm
      · exact (h2 m hm).1
      · exact le_trans (behind_le done c.text) (h4 m hm)

/-- marks in front of what comes behind their chunks, if none of these is void -/
theorem marksFrom_lt (h : ∀ c ∈ cs, c.isVoid = false) :
    ∀ m ∈ marksFrom t done cs, behind m.generated < behind (done ++ textOf cs) := by
  induction cs generalizing done with
  | nil =>
    intro m hm
    cases hm
  | cons c cs ih =>
    obtain ⟨hc, hcs⟩ := List.forall_mem_cons.mp h
    have htext : done ++ textOf (c :: cs) = done ++ c.text ++ textOf cs := by
      rw [List.append_assoc]
      rfl
    intro m hm
    rw [htext]
    rcases List.mem_append.mp hm with hm | hm
    · exact lt_of_lt_of_le (((marks_ascending t done c).2 m hm).2.2 hc) (behind_le _ _)
    · exact ih hcs m hm

/-- nothing comes behind a void chunk -/
def VoidLast (cs : List Chunk) : Prop :=
  ∀ front c back, cs = front ++ c :: back → c.isVoid = true → back = []

theorem voidLast_iff :
    VoidLast cs ↔ ∀ front a back, cs = front ++ .replaced a [] :: back → back = [] := by
  constructor
  · intro h front a back hcs
    exact h front _ back hcs rfl
  · intro h front c back hcs hc
    cases c with
    | copied b s => cases hc
    | inserted s => cases hc
    | replaced a s =>
      rw [List.isEmpty_iff.mp hc] at hcs
      exact h front a back hcs

/-- **Marks go on**, if no chunk but the last is void. -/
theorem marksFrom_ascending (h : VoidLast cs) :
    (marksFrom t done cs).Pairwise (fun m n => behind m.generated < behind n.generated) := by
  induction cs generalizing done with
  | nil => exact List.Pairwise.nil
  | cons c cs ih =>
    obtain ⟨h1, h2⟩ := marks_ascending t done c
    apply List.pairwise_append.mpr
    refine ⟨h1, ?_, ?_⟩
    · apply ih
      intro front d back hcs hd
      exact h (c :: front) d back (congrArg (c :: ·) hcs) hd
    · intro m hm n hn
      -- behind a void chunk there is nothing, so no mark either
      have hc : c.isVoid = false := by
        apply Bool.eq_false_iff.mpr
        intro hvoid
        rw [h [] c cs rfl hvoid] at hn
        cases hn
      exact lt_of_lt_of_le ((h2 m hm).2.2 hc) ((marksFrom_weakly t _ cs).2 n hn)

/-- **No mark lies in inserted text**, if no chunk in front of it is void. -/
theorem not_mem_inserted {front back : List Chunk} {s : Text} {i : Nat}
    (h : ∀ c ∈ front, c.isVoid = false) (hi : i < s.length) :
    ∀ m ∈ marksFrom t [] (front ++ .inserted s :: back),
      behind m.generated ≠ behind (textOf front ++ List.take i s) := by
  intro m hm
  rw [marksFrom_append, List.nil_append] at hm
  rcases List.mem_append.mp hm with hm | hm
  · exact ne_of_lt (lt_of_lt_of_le (marksFrom_lt h m hm) (behind_le _ _))
  · have hm' : m ∈ marksFrom t (textOf front ++ s) back := hm
    have hlt := behind_take_lt (textOf front) hi (Nat.le_refl _)
    rw [List.take_length] at hlt
    exact (ne_of_lt (lt_of_lt_of_le hlt ((marksFrom_weakly t _ back).2 m hm'))).symm

theorem VoidLast.front {front back : List Chunk} {d : Chunk} (h : VoidLast (front ++ d :: back)) :
    ∀ c ∈ front, c.isVoid = false := by
  intro c hc
  apply Bool.eq_false_iff.mpr
  intro hvoid
  obtain ⟨us, vs, rfl⟩ := List.append_of_mem hc
  have hback := h us c (vs ++ d :: back) (by rw [List.append_assoc]; rfl) hvoid
  exact List.append_ne_nil_of_right_ne_nil _ (List.cons_ne_nil _ _) hback

end Chunk

open Chunk

theorem Patch.isVoid_of_mem_chunksFrom {t : Text} {n : Nat} {es : List Edit} {c : Chunk}
    (h : c ∈ chunksFrom t n es) (htext : c.text = []) : c.isVoid = true := by
  have hcopy : ∀ {k : Nat} {u : Text}, c ∈ copy k u → c.isVoid = true := by
    intro k u hc
    unfold copy at hc
    split at hc
    · cases hc
    · next hu =>
      rw [List.mem_singleton.mp hc] at htext
      exact absurd (List.isEmpty_iff.mpr htext) hu
  induction es generalizing n with
  | nil => exact hcopy h
  | cons e es ih =>
    rcases List.mem_append.mp h with h | h
    · exact hcopy h
    cases e with
    | insert k s =>
      rcases List.mem_append.mp h with h | h
      · split at h
        · cases h
        · next hs =>
          rw [List.mem_singleton.mp h] at htext
          exact absurd (List.isEmpty_iff.mpr htext) hs
      · exact ih h
    | replace a b s =>
      rcases List.mem_cons.mp h with rfl | h
      · exact List.isEmpty_iff.mpr htext
      · exact ih h

/-- **A void chunk leaves its mark where the next chunk begins.** -/
theorem exists_meeting (t : Text) (front back : List Chunk) (a : Nat) {d : Chunk}
    (hd : d.text = [] → d.isVoid = true) :
    (∃ m ∈ marksFrom t [] (front ++ [.replaced a []]), ∃ n ∈ marksFrom t (textOf front) (d :: back),
      behind m.generated = behind n.generated) ∨
    ∃ s, d = .inserted s ∧ s ≠ [] ∧ ∃ m ∈ marksFrom t [] (front ++ [.replaced a []]),
      behind m.generated = behind (textOf front) := by
  have hm : (⟨textOf front, t.take a⟩ : Mark) ∈ marksFrom t [] (front ++ [.replaced a []]) := by
    apply mem_marksFrom
    exact List.mem_singleton.mpr rfl
  cases d with
  | copied b s =>
    left
    refine ⟨_, hm, ⟨textOf front ++ List.take 0 s, t.take b ++ List.take 0 s⟩, ?_, ?_⟩
    · apply List.mem_append_left
      apply List.mem_map.mpr
      refine ⟨0, ?_, rfl⟩
      cases s with
      | nil => cases hd rfl
      | cons c s =>
        rw [Text.tokenStarts_cons]
        exact List.mem_append_left _ (List.mem_singleton.mpr rfl)
    · rw [List.take_zero, List.append_nil]
  | replaced b s =>
    left
    exact ⟨_, hm, ⟨textOf front, t.take b⟩, List.mem_append_left _ (List.mem_singleton.mpr rfl), rfl⟩
  | inserted s =>
    right
    refine ⟨s, rfl, ?_, _, hm, rfl⟩
    rintro rfl
    cases hd rfl

/-- **Nothing comes behind a void chunk**, if the marks go on and none of them lies in an insert. -/
theorem Patch.voidLast {p : Patch}
    (hlt : (marksFrom p.text [] p.chunks).Pairwise fun m n => behind m.generated < behind n.generated)
    (hins : ∀ front s back, p.chunks = front ++ .inserted s :: back → s ≠ [] →
      ∀ m ∈ marksFrom p.text [] p.chunks, behind m.generated ≠ behind (textOf front)) :
    VoidLast p.chunks := by
  apply voidLast_iff.mpr
  intro front a back hcs
  cases back with
  | nil => rfl
  | cons d back =>
    exfalso
    have hd : d.text = [] → d.isVoid = true := by
      have hmem : d ∈ Patch.chunksFrom p.text 0 (Edit.arrange p.edits) := by
        show d ∈ p.chunks
        rw [hcs]
        simp
      exact Patch.isVoid_of_mem_chunksFrom hmem
    have hall : p.chunks = (front ++ [.replaced a []]) ++ d :: back := by
      rw [hcs, List.append_assoc]
      rfl
    have htext : textOf (front ++ [.replaced a []]) = textOf front := by
      rw [Patch.textOf_append]
      exact List.append_nil _
    obtain ⟨m, hm, n, hn, hmn⟩ | ⟨s, rfl, hs, m, hm, hmf⟩ := exists_meeting p.text front back a hd
    · rw [hall, marksFrom_append, List.nil_append, htext] at hlt
      exact ne_of_lt ((List.pairwise_append.mp hlt).2.2 m hm n hn) hmn
    · refine hins _ s back hall hs m ?_ (by rw [htext, hmf])
      rw [hall, marksFrom_append]
      exact List.mem_append_left _ hm

/-! ## source maps -/

/-- **When the segments of a source map are told apart by their positions.**  The segments of a
patched text never go back.  They go on from one position to a later one, and none of them stands
in inserted text, exactly if nothing comes behind a replacement by an empty text: there alone a
segment is written that has no character of its own. -/
theorem SourceMap.decode?_ascending (source : Text) (p : Patch) :
    ∃ ms, Mappings.decode? (SourceMap.ofChunks source p.text p.chunks).mappings = some ms ∧
      (ms.located 0).Pairwise (fun g k => g.1 ≤ k.1) ∧
      (((ms.located 0).Pairwise (fun g k => g.1 < k.1) ∧
          ∀ front s back, p.chunks = front ++ .inserted s :: back → ∀ i < s.length,
            ∀ g ∈ ms.located 0, g.1 ≠ behind (Chunk.textOf front ++ List.take i s)) ↔
        ∀ front a back, p.chunks = front ++ .replaced a [] :: back → back = []) := by
  obtain ⟨hloc, hlen⟩ := located_ofChunks p.text p.chunks
  have hne : Mappings.ofChunks p.text p.chunks ≠ [] := by
    intro h0
    rw [h0] at hlen
    cases hlen
  refine ⟨_, Mappings.decode?_encode hne, ?_, ?_, ?_⟩
  · rw [hloc, List.pairwise_map]
    exact (Chunk.marksFrom_weakly p.text [] p.chunks).1
  · rintro ⟨hlt, hins⟩
    rw [hloc, List.pairwise_map] at hlt
    apply voidLast_iff.mp (Patch.voidLast hlt ?_)
    intro front s back hcs hs m hm hmf
    refine hins front s back hcs 0 (List.length_pos_iff.mpr hs) m.located ?_ ?_
    · rw [hloc]
      exact List.mem_map_of_mem hm
    · rw [List.take_zero, List.append_nil]
      exact hmf
  · intro hlast
    have hvoid : VoidLast p.chunks := voidLast_iff.mpr hlast
    constructor
    · rw [hloc, List.pairwise_map]
      exact Chunk.marksFrom_ascending hvoid
    · intro front s back hcs i hi g hg
      rw [hloc] at hg
      obtain ⟨m, hm, rfl⟩ := List.mem_map.mp hg
      rw [hcs] at hm hvoid
      exact Chunk.not_mem_inserted hvoid.front hi m hm

/-- **Two replacements by nothing**: the segment of the first stands in the insert behind it, the
segment of the second where the next one does. -/
theorem SourceMap.decode?_meeting :
    ∃ p, (Patch.ofText "abcdef".toList).makeAll
        [.overwrite 0 2 [], .insert 2 "x".toList, .overwrite 3 5 []] = .ok p ∧
      p.chunks = [.replaced 0 [], .inserted "x".toList, .copied 2 "c".toList, .replaced 3 [],
        .copied 5 "f".toList] ∧
      ∃ ms, Mappings.decode? (SourceMap.ofChunks "a.ts" p.text p.chunks).mappings = some ms ∧
        ms.located 0 = [(⟨0, 0⟩, ⟨0, 0⟩), (⟨0, 1⟩, ⟨0, 2⟩), (⟨0, 2⟩, ⟨0, 3⟩), (⟨0, 2⟩, ⟨0, 5⟩)] ∧
        ¬ (ms.located 0).Pairwise (fun g k => g.1 < k.1) := by
  refine ⟨_, rfl, by decide +kernel, _, Mappings.decode?_encode (by decide +kernel), ?_⟩
  rw [(located_ofChunks _ _).1]
  decide +kernel

end StorySuite
