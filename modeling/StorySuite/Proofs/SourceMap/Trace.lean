import Mathlib.Data.List.Induction
import StorySuite.SourceMap.Basic
import StorySuite.Proofs.Patch.Chunks
import StorySuite.Proofs.SourceMap.Mappings

/-!
# What a source map says

The mappings of a patched text are collected with cursors that move on character by character.
Here they are said without cursors: a `Mark` is a place of the patched text with the place that it
comes from, each given by the text in front of it, and a segment is the pair of their positions.

* `Position.behind t`     the position behind `t`: its line feeds, and the units of its last line;
* `Chunk.marksFrom`       the marks of chunks, in order;
* `Trace.Has`             what a trace has collected;
* `located_ofChunks`      **the segments of chunks are the positions of their marks**;
* `exists_mark`           **every start of a token that is kept has a mark**;
* `SourceMap.decode?_ofChunks`   all this, read back from a source map in its written form.
-/

namespace StorySuite

/-! ## positions -/

/-- what stands behind the last line feed -/
def Text.lastLine (t : Text) : Text := (t.reverse.takeWhile (· != '\n')).reverse

theorem Text.lastLine_append_singleton (t : Text) (c : Char) :
    lastLine (t ++ [c]) = if c = '\n' then [] else t.lastLine ++ [c] := by
  unfold lastLine
  rw [List.reverse_append, List.reverse_singleton, List.singleton_append, List.takeWhile_cons]
  by_cases hc : c = '\n'
  · rw [if_pos hc, hc]
    rfl
  · rw [if_neg hc, if_pos (by simpa using hc), List.reverse_cons]

namespace Position

/-- **The position behind a text**: its line feeds, and the UTF-16 units of its last line. -/
def behind (t : Text) : Position := ⟨t.count '\n', t.lastLine.units⟩

theorem behind_append_singleton (t : Text) (c : Char) :
    behind (t ++ [c]) = (behind t).after c := by
  unfold behind after
  rw [Text.lastLine_append_singleton, List.count_append]
  by_cases hc : c = '\n'
  · rw [if_pos hc, if_pos hc, hc]
    rfl
  · rw [if_neg hc, if_neg hc, List.count_singleton, if_neg (by simpa using hc),
      Text.units_append]
    rfl

theorem through_zero (t : Text) : zero.through t = behind t := by
  induction t using List.reverseRecOn with
  | nil => rfl
  | append_singleton t c ih =>
    rw [through_append, ih, behind_append_singleton]
    rfl

theorem ofOffset_eq (t : Text) (n : Nat) : ofOffset t n = behind (t.take n) := through_zero _

end Position

open Position

/-! ## marks -/

/-- a place of a patched text and the place that it comes from, as the texts in front of them -/
structure Mark where
  generated : Text
  source : Text

/-- the positions that a mark joins -/
def Mark.located (m : Mark) : Position × Position := (behind m.generated, behind m.source)

/-- the characters of `s` that are mapped behind the character `before`, by their number: those
that begin a token, and the first one if there is nothing in front of it -/
def Text.tokenStarts (before : Option Char) (s : Text) : List Nat :=
  (List.range s.length).filter fun
    | 0 => before.all (startsToken · (s.getD 0 ' '))
    | i + 1 => startsToken (s.getD i ' ') (s.getD (i + 1) ' ')

namespace Chunk

/-- **The marks of a chunk** of a patch of `t`, behind the text `done` -/
def marks (t done : Text) : Chunk → List Mark
  | copied a s => (s.tokenStarts none).map fun i => ⟨done ++ List.take i s, t.take a ++ List.take i s⟩
  | replaced a _ => [⟨done, t.take a⟩]
  | inserted _ => []

def marksFrom (t done : Text) : List Chunk → List Mark
  | [] => []
  | c :: cs => c.marks t done ++ marksFrom t (done ++ c.text) cs

end Chunk

/-- the segments of mappings whose first line has the number `n`, each as a position of the
patched text and the position that it comes from -/
def Mappings.located (n : Nat) : Mappings → List (Position × Position)
  | [] => []
  | ss :: lines => (ss.map fun s => (⟨n, s.column⟩, ⟨s.sourceLine, s.sourceColumn⟩)) ++
      located (n + 1) lines

theorem Mappings.located_append (n : Nat) (ls ks : Mappings) :
    located n (ls ++ ks) = located n ls ++ located (n + ls.length) ks := by
  induction ls generalizing n with
  | nil => rfl
  | cons ss ls ih =>
    show _ ++ located (n + 1) (ls ++ ks) = _
    rw [ih, List.length_cons, Nat.add_assoc, Nat.add_comm 1, ← List.append_assoc]
    rfl

theorem Text.tokenStarts_cons (before : Option Char) (c : Char) (s : Text) :
    tokenStarts before (c :: s) = (if before.all (startsToken · c) then [0] else []) ++
      (tokenStarts (some c) s).map (· + 1) := by
  have hrest : ((List.range s.length).map Nat.succ).filter (fun
        | 0 => before.all (startsToken · ((c :: s).getD 0 ' '))
        | i + 1 => startsToken ((c :: s).getD i ' ') ((c :: s).getD (i + 1) ' ')) =
      (tokenStarts (some c) s).map (· + 1) := by
    rw [List.filter_map, tokenStarts]
    congr 1
    refine List.filter_congr fun i _ => ?_
    cases i <;> rfl
  unfold tokenStarts at hrest ⊢
  rw [List.length_cons, List.range_succ_eq_map, List.filter_cons, hrest]
  show (if (before.all (startsToken · c)) = true then _ else _) = _
  split <;> rfl

/-! ## traces -/

namespace Trace

/-- **What a trace has collected** behind the text `done`. -/
structure Has (tr : Trace) (done : Text) (ms : List (Position × Position)) : Prop where
  line : tr.lines.length = (behind done).line
  column : tr.column = (behind done).column
  located : tr.mappings.located 0 = ms

variable {tr : Trace} {done : Text} {ms : List (Position × Position)}

theorem has_empty : empty.Has [] [] := ⟨rfl, rfl, rfl⟩

theorem located_mappings (tr : Trace) :
    tr.mappings.located 0 = Mappings.located 0 tr.lines.reverse ++
      (tr.line.reverse.map fun s =>
        (⟨tr.lines.length, s.column⟩, ⟨s.sourceLine, s.sourceColumn⟩)) := by
  rw [mappings, List.reverse_cons, Mappings.located_append, List.length_reverse, Nat.zero_add]
  congr 1
  exact List.append_nil _

theorem Has.mark (h : tr.Has done ms) (source : Position) :
    (tr.mark source).Has done (ms ++ [(behind done, source)]) := by
  refine ⟨h.line, h.column, ?_⟩
  have hloc := h.located
  rw [located_mappings] at hloc ⊢
  show Mappings.located 0 tr.lines.reverse ++ List.map _ (List.reverse (_ :: tr.line)) = _
  rw [List.reverse_cons, List.map_append, ← List.append_assoc]
  have hpos : (⟨tr.lines.length, tr.column⟩ : Position) = behind done := by
    rw [h.line, h.column]
  show (_ ++ _) ++ [((⟨tr.lines.length, tr.column⟩ : Position), source)] = _
  rw [hpos, ← hloc]
  rfl

theorem Has.advance (h : tr.Has done ms) (c : Char) : (tr.advance c).Has (done ++ [c]) ms := by
  obtain ⟨h1, h2, h3⟩ := h
  rw [located_mappings] at h3
  unfold Trace.advance
  by_cases hc : c = '\n'
  · rw [if_pos hc]
    have hafter : (behind done).after c = ⟨(behind done).line + 1, 0⟩ := if_pos hc
    refine ⟨?_, ?_, ?_⟩
    · rw [behind_append_singleton, hafter, List.length_cons, h1]
    · rw [behind_append_singleton, hafter]
    · rw [located_mappings, List.reverse_cons, Mappings.located_append, List.length_reverse, ← h3,
        Nat.zero_add]
      show (_ ++ (_ ++ [])) ++ [] = _
      rw [List.append_nil, List.append_nil]
  · rw [if_neg hc]
    have hafter : (behind done).after c =
        ⟨(behind done).line, (behind done).column + Text.charUnits c⟩ := if_neg hc
    refine ⟨?_, ?_, ?_⟩
    · rw [behind_append_singleton, hafter]
      exact h1
    · rw [behind_append_singleton, hafter]
      show tr.column + _ = _
      rw [h2]
    · rw [located_mappings]
      exact h3

theorem Has.skip (h : tr.Has done ms) (s : Text) : (tr.skip s).Has (done ++ s) ms := by
  induction s generalizing tr done with
  | nil =>
    rw [List.append_nil]
    exact h
  | cons c s ih =>
    have h' := ih (h.advance c)
    rw [List.append_assoc] at h'
    exact h'

/-- the source position moves on with the text that is copied -/
theorem Has.copy (h : tr.Has done ms) (source : Text) (before : Option Char) (s : Text) :
    (tr.copy (behind source) before s).Has (done ++ s)
      (ms ++ (s.tokenStarts before).map fun i =>
        (behind (done ++ List.take i s), behind (source ++ List.take i s))) := by
  induction s generalizing tr done ms source before with
  | nil =>
    rw [List.append_nil]
    show tr.Has done (ms ++ [])
    rw [List.append_nil]
    exact h
  | cons c s ih =>
    have hmark : ∃ tr', (if before.all (startsToken · c) then tr.mark (behind source) else tr) = tr' ∧
        tr'.Has done (ms ++ (if before.all (startsToken · c) then [0] else []).map fun i =>
          (behind (done ++ List.take i (c :: s)), behind (source ++ List.take i (c :: s)))) := by
      by_cases hb : before.all (startsToken · c) = true
      · refine ⟨_, if_pos hb, ?_⟩
        rw [if_pos hb]
        have h' := h.mark (behind source)
        show (tr.mark (behind source)).Has done (ms ++ [(behind (done ++ []), behind (source ++ []))])
        rw [List.append_nil, List.append_nil]
        exact h'
      · refine ⟨_, if_neg hb, ?_⟩
        rw [if_neg hb]
        show tr.Has done (ms ++ [])
        rw [List.append_nil]
        exact h
    obtain ⟨tr', htr, h'⟩ := hmark
    have hrest := ih (h'.advance c) (source ++ [c]) (some c)
    rw [behind_append_singleton] at hrest
    show (Trace.copy (Trace.advance (if _ then _ else _) c) _ (some c) s).Has _ _
    rw [htr, Text.tokenStarts_cons, List.map_append, ← List.append_assoc, List.map_map]
    have hdone : done ++ [c] ++ s = done ++ c :: s := by rw [List.append_assoc]; rfl
    rw [hdone] at hrest
    have hshift : ((Text.tokenStarts (some c) s).map fun i =>
          (behind (done ++ [c] ++ List.take i s), behind (source ++ [c] ++ List.take i s))) =
        (Text.tokenStarts (some c) s).map ((fun i =>
          (behind (done ++ List.take i (c :: s)), behind (source ++ List.take i (c :: s)))) ∘
            (· + 1)) := by
      refine List.map_congr_left fun i _ => ?_
      show _ = (behind (done ++ List.take (i + 1) (c :: s)),
        behind (source ++ List.take (i + 1) (c :: s)))
      rw [List.take_succ_cons, List.append_assoc, List.append_assoc]
      rfl
    rw [← hshift]
    exact hrest

theorem Has.chunk (h : tr.Has done ms) (t : Text) (c : Chunk) :
    (Trace.chunk t tr c).Has (done ++ c.text) (ms ++ (c.marks t done).map Mark.located) := by
  cases c with
  | copied a s =>
    have h' := h.copy (t.take a) none s
    show (tr.copy (ofOffset t a) none s).Has (done ++ s) _
    rw [ofOffset_eq, Chunk.marks, List.map_map]
    exact h'
  | replaced a s =>
    have h' := (h.mark (behind (t.take a))).skip s
    show ((tr.mark (ofOffset t a)).skip s).Has (done ++ s) _
    rw [ofOffset_eq]
    exact h'
  | inserted s =>
    have h' := h.skip s
    show (tr.skip s).Has (done ++ s) (ms ++ [])
    rw [List.append_nil]
    exact h'

theorem Has.chunks (h : tr.Has done ms) (t : Text) (cs : List Chunk) :
    (cs.foldl (Trace.chunk t) tr).Has (done ++ Chunk.textOf cs)
      (ms ++ (Chunk.marksFrom t done cs).map Mark.located) := by
  induction cs generalizing tr done ms with
  | nil =>
    show tr.Has (done ++ []) (ms ++ [])
    rw [List.append_nil, List.append_nil]
    exact h
  | cons c cs ih =>
    have h' := ih (h.chunk t c)
    rw [List.append_assoc, List.append_assoc] at h'
    rw [Chunk.marksFrom, List.map_append]
    exact h'

end Trace

/-- **The segments of chunks are the positions of their marks**, line by line. -/
theorem located_ofChunks (t : Text) (cs : List Chunk) :
    (Mappings.ofChunks t cs).located 0 = (Chunk.marksFrom t [] cs).map Mark.located ∧
      (Mappings.ofChunks t cs).length = (Chunk.textOf cs).count '\n' + 1 := by
  have h := Trace.has_empty.chunks t cs
  refine ⟨h.located, ?_⟩
  show (List.reverse (_ :: _)).length = _
  rw [List.length_reverse, List.length_cons, h.line]
  rfl

/-! ## marks that there are -/

theorem mem_tokenStarts {before : Option Char} {s : Text} {i : Nat}
    (h : i ∈ s.tokenStarts before) : i < s.length :=
  List.mem_range.mp (List.mem_filter.mp h).1

/-- behind `w` a character is mapped that begins a token -/
theorem length_mem_tokenStarts {w v : Text} {c : Char}
    (h : ∀ b ∈ w.getLast?, startsToken b c = true) :
    w.length ∈ Text.tokenStarts none (w ++ c :: v) := by
  have hlen : w.length < (w ++ c :: v).length := by
    rw [List.length_append, List.length_cons]
    omega
  refine List.mem_filter.mpr ⟨List.mem_range.mpr hlen, ?_⟩
  induction w using List.reverseRecOn with
  | nil => rfl
  | append_singleton w b _ =>
    have hb := h b (by simp)
    rw [List.length_append, List.length_singleton]
    show startsToken ((w ++ [b] ++ c :: v).getD w.length ' ')
      ((w ++ [b] ++ c :: v).getD (w.length + 1) ' ') = true
    have h1 : (w ++ [b] ++ c :: v).getD w.length ' ' = b := by simp
    have h2 : (w ++ [b] ++ c :: v).getD (w.length + 1) ' ' = c := by simp
    rw [h1, h2]
    exact hb

namespace Chunk

theorem marksFrom_append (t done : Text) (cs ds : List Chunk) :
    marksFrom t done (cs ++ ds) = marksFrom t done cs ++ marksFrom t (done ++ textOf cs) ds := by
  induction cs generalizing done with
  | nil =>
    show _ = [] ++ marksFrom t (done ++ []) ds
    rw [List.append_nil]
    rfl
  | cons c cs ih =>
    show c.marks t done ++ marksFrom t (done ++ c.text) (cs ++ ds) = _
    rw [ih, ← List.append_assoc, List.append_assoc done]
    rfl

/-- the marks of a chunk among those of all chunks -/
theorem mem_marksFrom {t : Text} {cs ds : List Chunk} {c : Chunk} {m : Mark}
    (h : m ∈ c.marks t (textOf cs)) : m ∈ marksFrom t [] (cs ++ c :: ds) := by
  rw [marksFrom_append]
  refine List.mem_append_right _ ?_
  exact List.mem_append_left _ h

end Chunk

/-- whether the character `c` begins a token behind the text `u` -/
def Text.beginsToken (u : Text) (c : Char) : Bool :=
  match u.getLast? with
  | none => CharClass.of c != .blank
  | some b => startsToken b c

namespace Patch.Sound

variable {p : Patch} (hp : p.Sound)
include hp

/-- **What is marked in a copied chunk is one and the same character**, in the patched text and in
the text that it comes from. -/
theorem same_character {cs ds : List Chunk} {a i : Nat} {s : Text}
    (hcs : p.chunks = cs ++ .copied a s :: ds) (hi : i ∈ s.tokenStarts none) :
    (∃ c x y, p.render = (Chunk.textOf cs ++ List.take i s) ++ c :: x ∧
      p.text = (p.text.take a ++ List.take i s) ++ c :: y) ∧
      (⟨Chunk.textOf cs ++ List.take i s, p.text.take a ++ List.take i s⟩ : Mark) ∈
        Chunk.marksFrom p.text [] p.chunks := by
  have hmem : .copied a s ∈ p.chunks := by
    rw [hcs]
    exact List.mem_append_right _ List.mem_cons_self
  obtain ⟨-, v, hv⟩ := Patch.copied_piece hp.laid_arrange hmem
  have hlt := mem_tokenStarts hi
  have hs : s = List.take i s ++ s[i] :: List.drop (i + 1) s := by
    rw [← List.drop_eq_getElem_cons hlt, List.take_append_drop]
  refine ⟨⟨s[i], List.drop (i + 1) s ++ Chunk.textOf ds, List.drop (i + 1) s ++ v, ?_, ?_⟩, ?_⟩
  · have hrender : p.render = Chunk.textOf cs ++ (s ++ Chunk.textOf ds) := by
      rw [Patch.render, hcs, Patch.textOf_append]
      rfl
    rw [hrender, List.append_assoc]
    congr 1
    rw [← List.cons_append, ← List.append_assoc, ← hs]
  · rw [List.append_assoc, ← List.cons_append, ← List.append_assoc (List.take i s), ← hs]
    exact hv
  · rw [hcs]
    exact Chunk.mem_marksFrom (List.mem_map.mpr ⟨i, hi, rfl⟩)

/-- **Every start of a token that is kept has a mark.** -/
theorem exists_mark {u v : Text} {c : Char} (ht : p.text = u ++ c :: v)
    (hkeep : Patch.keeps p.edits u.size = true) (hc : u.beginsToken c = true) :
    ∃ m ∈ Chunk.marksFrom p.text [] p.chunks, m.source = u := by
  have hcpos : 0 < c.utf8Size := Char.utf8Size_pos c
  have hlt : u.size < p.text.size := by
    rw [ht, Text.size_append, Text.size_cons]
    omega
  rw [← Patch.keeps_arrange] at hkeep
  obtain ⟨a, s, hmem, h1, h2⟩ := Patch.exists_copied hp.laid_arrange (Nat.zero_le _) hlt hkeep
  obtain ⟨ha, y, hy⟩ := Patch.copied_piece hp.laid_arrange hmem
  have htake := Text.size_take ha
  -- the text in front of the character goes on from the beginning of the chunk
  obtain ⟨w, rfl, hw⟩ := Text.append_of_le (hy.symm.trans ht) (by omega)
  rw [Text.size_append, htake] at h2
  obtain ⟨w', hs⟩ : ∃ w', s = w ++ c :: w' := by
    obtain ⟨x, hs, hx⟩ := Text.append_of_le hw.symm (by omega)
    cases x with
    | nil =>
      rw [hs, List.append_nil] at h2
      omega
    | cons c' x => exact ⟨x, by rw [hs, (List.cons.inj hx).1]⟩
  have hi : w.length ∈ Text.tokenStarts none s := by
    rw [hs]
    refine length_mem_tokenStarts fun b hb => ?_
    have hlast : (p.text.take a ++ w).getLast? = some b := by
      rw [List.getLast?_append, hb]
      rfl
    rw [Text.beginsToken, hlast] at hc
    exact hc
  obtain ⟨cs, ds, hcs⟩ := List.append_of_mem hmem
  have hm := (hp.same_character hcs hi).2
  have hfront : List.take w.length s = w := by rw [hs, List.take_left]
  rw [hfront] at hm
  exact ⟨_, hm, rfl⟩

end Patch.Sound

/-! ## source maps -/

/-- **What is read back from the source map of a patched text**: the marks of its chunks, line by
line and in order, by their positions.  What is mapped in a copied chunk is one and the same
character on both sides, and every start of a token of the text that is kept is mapped. -/
theorem SourceMap.decode?_ofChunks (source t : Text) (rs : List Patch.Request) {p : Patch}
    (h : (Patch.ofText t).makeAll rs = .ok p) :
    ∃ ms, Mappings.decode? (SourceMap.ofChunks source t p.chunks).mappings = some ms ∧
      ms.located 0 = (Chunk.marksFrom t [] p.chunks).map Mark.located ∧
      ms.length = p.render.count '\n' + 1 ∧
      (∀ (cs : List Chunk) (a : Nat) (s : Text) (ds : List Chunk),
        p.chunks = cs ++ .copied a s :: ds → ∀ i ∈ s.tokenStarts none, ∃ c x y,
          p.render = (Chunk.textOf cs ++ List.take i s) ++ c :: x ∧
            t = (t.take a ++ List.take i s) ++ c :: y ∧
            (behind (Chunk.textOf cs ++ List.take i s), behind (t.take a ++ List.take i s)) ∈
              ms.located 0) ∧
      (∀ (u : Text) (c : Char) (v : Text), t = u ++ c :: v → Patch.keeps p.edits u.size = true → u.beginsToken c = true →
        ∃ g, (g, behind u) ∈ ms.located 0) := by
  obtain ⟨hp, rfl⟩ := Patch.sound_of_makeAll h
  obtain ⟨hloc, hlen⟩ := located_ofChunks p.text p.chunks
  have hne : Mappings.ofChunks p.text p.chunks ≠ [] := fun h0 => by
    rw [h0] at hlen
    cases hlen
  refine ⟨_, Mappings.decode?_encode hne, hloc, hlen, ?_, ?_⟩
  · intro cs a s ds hcs i hi
    obtain ⟨⟨c, x, y, h1, h2⟩, h3⟩ := hp.same_character hcs hi
    refine ⟨c, x, y, h1, h2, ?_⟩
    rw [hloc]
    exact List.mem_map.mpr ⟨_, h3, rfl⟩
  · intro u c v ht hkeep hc
    obtain ⟨m, hm, rfl⟩ := hp.exists_mark ht hkeep hc
    rw [hloc]
    exact ⟨_, List.mem_map.mpr ⟨m, hm, rfl⟩⟩

/-- an insertion, a replacement and characters of two units, over two lines -/
theorem SourceMap.decode?_ofChunks_two_lines :
    ∃ p, (Patch.ofText "a😀\nb c".toList).makeAll
        [.insert 0 "x\n".toList, .overwrite 6 7 "😀".toList] = .ok p ∧
      ∃ ms, Mappings.decode? (SourceMap.ofChunks "a.ts" "a😀\nb c".toList p.chunks).mappings = some ms ∧
        ms.located 0 = [(⟨1, 0⟩, ⟨0, 0⟩), (⟨1, 1⟩, ⟨0, 1⟩), (⟨2, 0⟩, ⟨1, 0⟩), (⟨2, 2⟩, ⟨1, 1⟩),
          (⟨2, 3⟩, ⟨1, 2⟩)] := by
  refine ⟨_, rfl, ?_⟩
  obtain ⟨ms, h1, h2, -⟩ := decode?_ofChunks "a.ts" "a😀\nb c".toList
    [.insert 0 "x\n".toList, .overwrite 6 7 "😀".toList] rfl
  exact ⟨ms, h1, h2.trans (by decide +kernel)⟩

end StorySuite
