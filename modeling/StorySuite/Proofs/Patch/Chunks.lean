import StorySuite.Proofs.Patch.Order
import StorySuite.Proofs.Patch.Reading

/-!
# Where chunks come from

Chunks are read off edits that lie side by side, so each of them knows its place in the text that
is patched:

* `copied_piece`        a copied chunk is the piece of the text that begins where it says;
* `exists_copied`       **every byte that is kept lies in a copied chunk**.
-/

namespace StorySuite.Patch

variable {t : Text} {n : Nat} {es : List Edit}

theorem mem_copy {a m : Nat} {s u : Text} (h : .copied a s ∈ copy m u) : a = m ∧ s = u := by
  unfold copy at h
  split at h
  · cases h
  · cases List.mem_singleton.mp h
    exact ⟨rfl, rfl⟩

theorem copied_mem_copy {m : Nat} {u : Text} (h : 0 < u.size) : .copied m u ∈ copy m u := by
  cases u with
  | nil => cases h
  | cons c u => exact List.mem_singleton.mpr rfl

/-- the piece of a text between two boundaries, behind what comes before it -/
theorem slice_piece {a b : Nat} (ha : t.isBoundary a = true) (hb : t.isBoundary b = true)
    (hab : a ≤ b) : ∃ v, t = t.take a ++ (t.slice a b ++ v) := by
  obtain ⟨u, w, v, rfl, rfl, rfl, h⟩ := Text.exists_pieces ha hb hab
  exact ⟨v, by rw [h, Text.take_append]⟩

/-- **A copied chunk is the piece of the text that begins where it says.** -/
theorem copied_piece (h : Edit.Laid t n es) {a : Nat} {s : Text}
    (hs : .copied a s ∈ chunksFrom t n es) :
    t.isBoundary a = true ∧ ∃ v, t = t.take a ++ (s ++ v) := by
  induction es generalizing n with
  | nil =>
    obtain ⟨rfl, rfl⟩ := mem_copy hs
    have hn : t.isBoundary a = true := h
    exact ⟨hn, [], by rw [List.append_nil, Text.take_append_drop hn]⟩
  | cons e es ih =>
    have hgap : ∀ m, n ≤ m → t.isBoundary n = true → t.isBoundary m = true →
        .copied a s ∈ copy n (t.slice n m) →
          t.isBoundary a = true ∧ ∃ v, t = t.take a ++ (s ++ v) := by
      intro m hnm hn hm hs
      obtain ⟨rfl, rfl⟩ := mem_copy hs
      exact ⟨hn, slice_piece hn hm hnm⟩
    cases e with
    | insert p u =>
      obtain ⟨hn, hnp, hes⟩ := h
      have hs' : Chunk.copied a s ∈ copy n (t.slice n (max n p)) ++
        ((if u.isEmpty then [] else [.inserted u]) ++ chunksFrom t (max n p) es) := hs
      rw [Nat.max_eq_right hnp] at hs'
      rcases List.mem_append.mp hs' with hs' | hs'
      · exact hgap p hnp hn hes.boundary hs'
      rcases List.mem_append.mp hs' with hs' | hs'
      · split at hs'
        · cases hs'
        · cases List.mem_singleton.mp hs'
      · exact ih hes hs'
    | replace x y u =>
      obtain ⟨hn, hnx, hxy, hx, hes⟩ := h
      have hs' : Chunk.copied a s ∈ copy n (t.slice n (max n x)) ++
        .replaced x u :: chunksFrom t y es := hs
      rw [Nat.max_eq_right hnx] at hs'
      rcases List.mem_append.mp hs' with hs' | hs'
      · exact hgap x hnx hn hx hs'
      rcases List.mem_cons.mp hs' with hs' | hs'
      · cases hs'
      · exact ih hes hs'

/-- **Every byte that is kept lies in a copied chunk.** -/
theorem exists_copied (h : Edit.Laid t n es) {k : Nat} (hn : n ≤ k) (hk : k < t.size)
    (hkeep : keeps es k = true) :
    ∃ a s, .copied a s ∈ chunksFrom t n es ∧ a ≤ k ∧ k < a + s.size := by
  induction es generalizing n with
  | nil =>
    have hb : t.isBoundary n = true := h
    have hsize := Text.size_drop hb
    exact ⟨n, t.drop n, copied_mem_copy (by omega), hn, by omega⟩
  | cons e es ih =>
    have hgap : ∀ m, t.isBoundary n = true → t.isBoundary m = true → k < m →
        .copied n (t.slice n m) ∈ copy n (t.slice n m) ∧ k < n + (t.slice n m).size := by
      intro m hbn hbm hkm
      have hsize := Text.size_slice hbn hbm (by omega)
      exact ⟨copied_mem_copy (by omega), by omega⟩
    cases e with
    | insert p u =>
      obtain ⟨hbn, hnp, hes⟩ := h
      have hchunks : chunksFrom t n (.insert p u :: es) = copy n (t.slice n p) ++
          ((if u.isEmpty then [] else [.inserted u]) ++ chunksFrom t p es) := by
        show copy n (t.slice n (max n p)) ++ (_ ++ chunksFrom t (max n p) es) = _
        rw [Nat.max_eq_right hnp]
      rw [hchunks]
      rcases Nat.lt_or_ge k p with hkp | hkp
      · obtain ⟨h1, h2⟩ := hgap p hbn hes.boundary hkp
        exact ⟨n, _, List.mem_append_left _ h1, hn, h2⟩
      · obtain ⟨a, s, h1, h2⟩ := ih hes hkp hkeep
        exact ⟨a, s, List.mem_append_right _ (List.mem_append_right _ h1), h2⟩
    | replace x y u =>
      obtain ⟨hbn, hnx, hxy, hbx, hes⟩ := h
      have hchunks : chunksFrom t n (.replace x y u :: es) =
          copy n (t.slice n x) ++ .replaced x u :: chunksFrom t y es := by
        show copy n (t.slice n (max n x)) ++ _ = _
        rw [Nat.max_eq_right hnx]
      rw [hchunks]
      rcases Nat.lt_or_ge k x with hkx | hkx
      · obtain ⟨h1, h2⟩ := hgap x hbn hbx hkx
        exact ⟨n, _, List.mem_append_left _ h1, hn, h2⟩
      rcases Nat.lt_or_ge k y with hky | hky
      · -- such a byte is replaced
        rw [keeps_cons_replace hkx hky] at hkeep
        cases hkeep
      · rw [(replace_congr u hxy hky).2] at hkeep
        obtain ⟨a, s, h1, h2⟩ := ih hes hky hkeep
        exact ⟨a, s, List.mem_append_right _ (List.mem_cons_of_mem _ h1), h2⟩

end StorySuite.Patch
