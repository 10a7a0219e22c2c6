import StorySuite.SourceMap.LineIndex
import StorySuite.Proofs.Text.Cut
import StorySuite.Proofs.SourceMap.Ascending

/-!
# What a line index says

The lines of a text begin at ascending bytes, so halving finds the last of them that is not behind
the byte that is looked up: there is always one, and what stands between is the last line of what
stands in front of the byte.

* `partitionPoint_eq`          **halving finds where a property ends**;
* `LineIndex.pairwise_starts`  the starts of lines ascend;
* `LineIndex.starts_append`    those of a text in front, and those of the rest;
* `LineIndex.exists_start`     the last line of a text begins at the last start;
* `LineIndex.position_exact`   **a byte that is looked up is at the position behind what stands in
                               front of it**, and further on than those in front of it.
-/

namespace StorySuite

/-- **Halving finds where a property ends**: it keeps between the items that have the property and
those that do not. -/
theorem partitionPoint_eq {α : Type} {p : α → Bool} {xs : Array α} {k : Nat}
    (hp : ∀ i, i < k → ∃ x, xs[i]? = some x ∧ p x = true)
    (hn : ∀ i x, k ≤ i → xs[i]? = some x → p x = false)
    {lo hi : Nat} (hlo : lo ≤ k) (hhi : k ≤ hi) (hsize : hi ≤ xs.size) :
    partitionPoint p xs lo hi = k := by
  fun_induction partitionPoint p xs lo hi with
  | case1 lo hi hlt mid hmid ih =>
    obtain ⟨x, hx, hpx⟩ := (Option.any_eq_true p _).mp hmid
    have hk : mid < k := by
      by_contra hk
      rw [hn mid x (by omega) hx] at hpx
      cases hpx
    exact ih hk hhi hsize
  | case2 lo hi hlt mid hmid ih =>
    have hk : k ≤ mid := by
      by_contra hk
      obtain ⟨x, hx, hpx⟩ := hp mid (by omega)
      exact hmid (by rw [hx]; exact hpx)
    exact ih hlo hk (by omega)
  | case3 lo hi hlt => omega

/-- no search comes out in front of an item that has the property -/
theorem partitionPoint_pos {α : Type} {p : α → Bool} {xs : Array α} (h0 : xs[0]?.any p = true)
    {lo hi : Nat} (hhi : 0 < hi) : 0 < partitionPoint p xs lo hi := by
  fun_induction partitionPoint p xs lo hi with
  | case1 lo hi hlt mid hmid ih => exact ih hhi
  | case2 lo hi hlt mid hmid ih =>
    refine ih (Nat.pos_of_ne_zero fun hz => ?_)
    rw [hz] at hmid
    exact hmid h0
  | case3 lo hi hlt => omega

namespace LineIndex

/-! ## the starts of lines -/

theorem startsFrom_append (n : Nat) (s u : Text) :
    startsFrom n (s ++ u) = startsFrom n s ++ startsFrom (n + s.size) u := by
  induction s generalizing n with
  | nil => rfl
  | cons c s ih =>
    have hsize : n + Text.size (c :: s) = n + c.utf8Size + Text.size s := by
      rw [Text.size_cons, Nat.add_assoc]
    rw [List.cons_append, startsFrom, startsFrom, hsize]
    by_cases hc : c = '\n'
    · have hone : c.utf8Size = 1 := by rw [hc]; rfl
      rw [if_pos hc, if_pos hc, ih, hone, List.cons_append]
    · rw [if_neg hc, if_neg hc, ih]

theorem mem_startsFrom {n k : Nat} {t : Text} (h : k ∈ startsFrom n t) :
    n < k ∧ k ≤ n + t.size := by
  induction t generalizing n with
  | nil => cases h
  | cons c t ih =>
    have hc := Char.utf8Size_pos c
    rw [startsFrom] at h
    rw [Text.size_cons]
    split at h
    · next hn =>
      have hone : c.utf8Size = 1 := by rw [hn]; rfl
      rcases List.mem_cons.mp h with rfl | h
      · omega
      · have := ih h
        omega
    · have := ih h
      omega

theorem length_startsFrom (n : Nat) (t : Text) : (startsFrom n t).length = t.count '\n' := by
  induction t generalizing n with
  | nil => rfl
  | cons c t ih =>
    rw [startsFrom, List.count_cons]
    by_cases hc : c = '\n'
    · rw [if_pos hc, List.length_cons, ih, hc]
      rfl
    · rw [if_neg hc, ih, if_neg (by simpa using hc), Nat.add_zero]

/-- the last line of a text begins at the last start -/
theorem exists_start (t : Text) :
    ∃ h, t = h ++ t.lastLine ∧ (0 :: startsFrom 0 t)[t.count '\n']? = some h.size := by
  induction t using List.reverseRecOn with
  | nil => exact ⟨[], rfl, rfl⟩
  | append_singleton t c ih =>
    obtain ⟨h, ht, hstart⟩ := ih
    have hlast : 0 :: startsFrom 0 (t ++ [c]) =
        (0 :: startsFrom 0 t) ++ startsFrom (Text.size t) [c] := by
      rw [startsFrom_append, Nat.zero_add, List.cons_append]
    have hlen : (0 :: startsFrom 0 t).length = t.count '\n' + 1 := by
      rw [List.length_cons, length_startsFrom]
    rw [hlast, List.count_append, Text.lastLine_append_singleton]
    by_cases hc : c = '\n'
    · subst hc
      refine ⟨t ++ ['\n'], ?_, ?_⟩
      · rw [if_pos rfl, List.append_nil]
      · have hone : List.count '\n' ['\n'] = 1 := rfl
        rw [hone, List.getElem?_append_right (by omega), hlen, Nat.sub_self, Text.size_append]
        rfl
    · refine ⟨h, ?_, ?_⟩
      · rw [if_neg hc, ← List.append_assoc, ← ht]
      · have hnone : List.count '\n' [c] = 0 := by
          rw [List.count_singleton, if_neg (by simpa using hc)]
        rw [hnone, Nat.add_zero, List.getElem?_append_left (by omega), hstart]

/-! ## looking up -/

/-- a search for a line always comes to one -/
theorem linesTo_ne_zero (t : Text) (n : Nat) : (of t).linesTo n ≠ 0 :=
  Nat.ne_of_gt (partitionPoint_pos rfl (by simp [of]))

/-- the lines that begin at the end of `s` or in front of it -/
theorem linesTo_append (s u : Text) : (of (s ++ u)).linesTo s.size = s.count '\n' + 1 := by
  have hstarts : (of (s ++ u)).starts =
      ((0 :: startsFrom 0 s) ++ startsFrom s.size u).toArray := by
    rw [of, startsFrom_append, Nat.zero_add, List.cons_append]
  have hlen : (0 :: startsFrom 0 s).length = s.count '\n' + 1 := by
    rw [List.length_cons, length_startsFrom]
  rw [linesTo, hstarts]
  refine partitionPoint_eq (fun i hi => ?_) (fun i x hi hx => ?_) (Nat.zero_le _) ?_
    (Nat.le_refl _)
  · have hlt : i < (0 :: startsFrom 0 s).length := by omega
    refine ⟨(0 :: startsFrom 0 s)[i], ?_, decide_eq_true ?_⟩
    · rw [List.getElem?_toArray, List.getElem?_append_left hlt, List.getElem?_eq_getElem hlt]
    · rcases List.mem_cons.mp (List.getElem_mem hlt) with h | h
      · omega
      · have := (mem_startsFrom h).2
        omega
  · rw [List.getElem?_toArray, List.getElem?_append_right (by omega)] at hx
    have := (mem_startsFrom (List.mem_of_getElem? hx)).1
    exact decide_eq_false (by omega)
  · rw [List.size_toArray, List.length_append, hlen]
    omega

/-- **A byte is looked up at the position behind what stands in front of it.** -/
theorem position?_append (s u : Text) :
    (of (s ++ u)).position? s.size = some (Position.behind s) := by
  obtain ⟨h, hs, hstart⟩ := exists_start s
  have hget : (of (s ++ u)).starts[s.count '\n']? = some h.size := by
    rw [of, List.getElem?_toArray, startsFrom_append, ← List.cons_append,
      List.getElem?_append_left (by rw [List.length_cons, length_startsFrom]; omega), hstart]
  have hcut : (of (s ++ u)).text.slice? h.size s.size = some s.lastLine := by
    have hpieces := Text.slice?_append h s.lastLine u
    rw [← List.append_assoc, ← hs, ← Text.size_append, ← hs] at hpieces
    exact hpieces
  rw [position?, linesTo_append]
  show ((of (s ++ u)).starts[s.count '\n']?.bind fun start =>
    ((of (s ++ u)).text.slice? start s.size).bind fun before =>
      some (⟨s.count '\n', before.units⟩ : Position)) = _
  rw [hget, Option.bind_some, hcut, Option.bind_some]
  rfl

/-- a byte inside of a character has no position -/
theorem position?_eq_none {t : Text} {n : Nat} (h : t.isBoundary n = false) :
    (of t).position? n = none := by
  rw [position?]
  split
  · rfl
  · rename_i line _
    have hcut : ∀ start, (of t).text.slice? start n = none := by
      intro start
      show t.slice? start n = none
      rw [Text.slice?, h, Bool.and_false, if_neg Bool.false_ne_true]
    cases (of t).starts[line]? with
    | none => rfl
    | some start =>
      show ((of t).text.slice? start n).bind _ = none
      rw [hcut]
      rfl

theorem position?_eq_some {t : Text} {n : Nat} {p : Position} (h : (of t).position? n = some p) :
    ∃ s u, t = s ++ u ∧ s.size = n ∧ Position.behind s = p := by
  cases hb : t.isBoundary n with
  | false =>
    rw [position?_eq_none hb] at h
    cases h
  | true =>
    obtain ⟨s, u, rfl, rfl⟩ := Text.isBoundary_iff.mp hb
    rw [position?_append] at h
    exact ⟨s, u, rfl, rfl, Option.some.inj h⟩

end LineIndex

theorem Text.charUnits_le_utf8Size (c : Char) : charUnits c ≤ c.utf8Size := by
  have hpos := Char.utf8Size_pos c
  unfold charUnits
  split
  · exact hpos
  · next h =>
    have hbig : 65535 < c.val := UInt32.lt_iff_toNat_lt.mpr (Nat.lt_of_succ_le (Nat.le_of_not_lt h))
    rw [Char.utf8Size_eq_four_iff.mpr hbig]
    decide

/-- neither lines nor columns are more than bytes -/
theorem Position.behind_le_size (t : Text) :
    (behind t).line + (behind t).column ≤ t.size := by
  induction t using List.reverseRecOn with
  | nil => exact Nat.le_refl _
  | append_singleton t c ih =>
    have hc := Text.charUnits_le_utf8Size c
    have hpos := Char.utf8Size_pos c
    rw [behind_append_singleton, Text.size_append, Text.size_cons, Text.size_nil, after]
    split
    · show (behind t).line + 1 + 0 ≤ _
      omega
    · show (behind t).line + ((behind t).column + Text.charUnits c) ≤ _
      omega

namespace LineIndex

theorem position_lt {t : Text} {a b : Nat} {p q : Position} (hp : (of t).position? a = some p)
    (hq : (of t).position? b = some q) (hab : a < b) : p < q := by
  obtain ⟨s, u, rfl, rfl, rfl⟩ := position?_eq_some hp
  obtain ⟨s', u', h, rfl, rfl⟩ := position?_eq_some hq
  obtain ⟨w, rfl, -⟩ := Text.append_of_le h (Nat.le_of_lt hab)
  refine Position.behind_lt s ?_
  rintro rfl
  rw [List.append_nil] at hab
  exact Nat.lt_irrefl _ hab

/-- **A byte is looked up at the position behind what stands in front of it**: its line feeds, and
the units of its last line.  A line is found for every byte, and every place to cut a text at has a
position, which is no larger than the byte.  These positions are in the order of the bytes, and the
one behind a character is the next one. -/
theorem position_exact (t : Text) :
    (∀ n, (of t).linesTo n ≠ 0 ∧ (of t).position? n =
        if t.isBoundary n then some ⟨(t.take n).count '\n', (t.take n).lastLine.units⟩ else none) ∧
      (∀ n p, (of t).position? n = some p →
        Position.ofOffset t n = p ∧ p.line + p.column ≤ n) ∧
      (∀ a b p q, (of t).position? a = some p → (of t).position? b = some q →
        (a < b ↔ p < q) ∧ (a = b ↔ p = q)) ∧
      ∀ s c u, t = s ++ c :: u →
        (of t).position? (Text.size s + c.utf8Size) =
          ((of t).position? (Text.size s)).map (·.after c) := by
  refine ⟨fun n => ⟨linesTo_ne_zero t n, ?_⟩, fun n p hp => ?_, fun a b p q hp hq => ?_, ?_⟩
  · cases hb : t.isBoundary n with
    | false => exact position?_eq_none hb
    | true =>
      obtain ⟨s, u, rfl, rfl⟩ := Text.isBoundary_iff.mp hb
      rw [position?_append, if_pos rfl, Text.take_append]
      rfl
  · obtain ⟨s, u, rfl, rfl, rfl⟩ := position?_eq_some hp
    refine ⟨?_, Position.behind_le_size s⟩
    rw [Position.ofOffset_eq, Text.take_append]
  · have hsame : a = b → p = q := by
      rintro rfl
      rw [hp] at hq
      exact Option.some.inj hq
    rcases Nat.lt_trichotomy a b with hlt | heq | hgt
    · have h := position_lt hp hq hlt
      exact ⟨iff_of_true hlt h, iff_of_false (Nat.ne_of_lt hlt) (ne_of_lt h)⟩
    · have h := hsame heq
      refine ⟨iff_of_false (fun hlt => Nat.ne_of_lt hlt heq) ?_, iff_of_true heq h⟩
      rw [h]
      exact lt_irrefl q
    · have h := position_lt hq hp hgt
      exact ⟨iff_of_false (Nat.lt_asymm hgt) (lt_asymm h),
        iff_of_false (Nat.ne_of_gt hgt) (ne_of_gt h)⟩
  · rintro s c u rfl
    have hnext := position?_append (s ++ [c]) u
    rw [List.append_assoc, Text.size_append] at hnext
    rw [position?_append, Option.map_some, ← Position.behind_append_singleton]
    exact hnext

/-- two lines, with a character of four bytes and two units -/
def twoLines : Text := ['a', '\n', '😀', 'b', '\n']

theorem position_exact_twoLines :
    (of twoLines).position? 2 = some ⟨1, 0⟩ ∧ (of twoLines).position? 6 = some ⟨1, 2⟩ ∧
      twoLines = ['a', '\n'] ++ '😀' :: ['b', '\n'] ∧
      (Position.ofOffset twoLines 6 = ⟨1, 2⟩ ∧ 1 + 2 ≤ 6) ∧
      ((2 < 6 ↔ (⟨1, 0⟩ : Position) < ⟨1, 2⟩) ∧ (2 = 6 ↔ (⟨1, 0⟩ : Position) = ⟨1, 2⟩)) ∧
      (of twoLines).position? (2 + 4) = ((of twoLines).position? 2).map (·.after '😀') := by
  have h2 : (of twoLines).position? 2 = some ⟨1, 0⟩ := position?_append ['a', '\n'] ['😀', 'b', '\n']
  have h6 : (of twoLines).position? 6 = some ⟨1, 2⟩ := position?_append ['a', '\n', '😀'] ['b', '\n']
  obtain ⟨-, hsize, horder, hstep⟩ := position_exact twoLines
  exact ⟨h2, h6, rfl, hsize 6 _ h6, horder 2 6 _ _ h2 h6, hstep ['a', '\n'] '😀' ['b', '\n'] rfl⟩

end LineIndex

end StorySuite
