import StorySuite.Proofs.Tree.Regular
import StorySuite.Grammar.Semicolon

/-!
# Where a reader stands

`Reader.At t r` says that `r` stands in the text `t`: what is left is the end of `t` from its
offset on, and the last token ended at a boundary that is not behind it.  Blanks and comments are
read over without leaving the text (`Settles`), and `settle` stops where neither is next, so it
does nothing when it is done again.

* `advance_eq`          the reader some characters further;
* `At.settles`          **what is read over on the way to the next token**;
* `Still.settle_eq`     the next token is where it was;
* `At.ended?`           the end of a statement without its semicolon.
-/

namespace StorySuite.Grammar

variable {t : Text}

namespace Reader

/-- the reader stands in the text `t`, behind its last token -/
structure At (t : Text) (r : Reader) : Prop where
  text : ∃ s, t = s ++ r.rest ∧ Text.size s = r.offset
  last_le : r.last ≤ r.offset
  last_boundary : t.isBoundary r.last = true
  limit : r.rest.length < r.limit

/-! ## further on -/

theorem advance_eq (n : Nat) (r : Reader) :
    r.advance n = { r with
      rest := List.drop n r.rest, offset := r.offset + Text.size (List.take n r.rest) } := by
  induction n generalizing r with
  | zero => rfl
  | succ n ih =>
    obtain ⟨rest, offset, last, comments, limit⟩ := r
    cases rest with
    | nil => rfl
    | cons c rest =>
      show advance n ⟨rest, offset + c.utf8Size, last, comments, limit⟩ = _
      rw [ih]
      show Reader.mk _ (offset + c.utf8Size + Text.size (List.take n rest)) _ _ _ =
        Reader.mk _ (offset + (c.utf8Size + Text.size (List.take n rest))) _ _ _
      rw [Nat.add_assoc]
      rfl

theorem offset_le_advance (n : Nat) (r : Reader) : r.offset ≤ (r.advance n).offset := by
  rw [advance_eq]
  exact Nat.le_add_right _ _

@[simp] theorem advance_last (n : Nat) (r : Reader) : (r.advance n).last = r.last := by
  rw [advance_eq]

@[simp] theorem advance_comments (n : Nat) (r : Reader) :
    (r.advance n).comments = r.comments := by
  rw [advance_eq]

namespace At

variable {r : Reader}

theorem start (t : Text) : (Reader.start t).At t :=
  ⟨⟨[], rfl, rfl⟩, Nat.le_refl _, Text.isBoundary_zero t, Nat.lt_succ_self _⟩

theorem offset_boundary (h : r.At t) : t.isBoundary r.offset = true := by
  obtain ⟨s, h1, h2⟩ := h.text
  exact Text.isBoundary_iff.mpr ⟨s, r.rest, h1, h2⟩

theorem offset_le_size (h : r.At t) : r.offset ≤ t.size := Text.le_size h.offset_boundary

theorem drop_offset (h : r.At t) : t.drop r.offset = r.rest := by
  obtain ⟨s, h1, h2⟩ := h.text
  rw [h1, ← h2, Text.drop_append]

/-- the next characters of the text -/
theorem slice_offset (h : r.At t) (n : Nat) :
    t.slice r.offset (r.advance n).offset = List.take n r.rest := by
  have hcut := Text.take_append (List.take n r.rest) (List.drop n r.rest)
  rw [List.take_append_drop] at hcut
  rw [advance_eq]
  show Text.take (t.drop r.offset) (r.offset + _ - r.offset) = _
  rw [h.drop_offset, Nat.add_sub_cancel_left]
  exact hcut

/-- what a part of the text begins with -/
theorem head_slice (h : r.At t) {n : Nat} (hn : r.offset < n) (hb : t.isBoundary n = true) :
    (t.slice r.offset n).head? = r.rest.head? := by
  obtain ⟨u, w, v, ht, hu, hw, hslice⟩ :=
    Text.exists_pieces h.offset_boundary hb (Nat.le_of_lt hn)
  have hrest : r.rest = w ++ v := by
    rw [← h.drop_offset, ← hu, ht, Text.drop_append]
  rw [hslice, hrest]
  cases w with
  | nil =>
    rw [Text.size_nil] at hw
    omega
  | cons c w => rfl

theorem advance (h : r.At t) (n : Nat) : (r.advance n).At t := by
  obtain ⟨s, h1, h2⟩ := h.text
  rw [advance_eq]
  refine ⟨⟨s ++ List.take n r.rest, ?_, ?_⟩, Nat.le_trans h.last_le (Nat.le_add_right _ _),
    h.last_boundary, ?_⟩
  · show t = s ++ List.take n r.rest ++ List.drop n r.rest
    rw [List.append_assoc, List.take_append_drop]
    exact h1
  · rw [Text.size_append, h2]
  · show (List.drop n r.rest).length < r.limit
    rw [List.length_drop]
    have := h.limit
    omega

theorem withComments (h : r.At t) (ds : List Node) : ({ r with comments := ds } : Reader).At t :=
  ⟨h.text, h.last_le, h.last_boundary, h.limit⟩

theorem withLast (h : r.At t) {n : Nat} (hn : n ≤ r.offset) (hb : t.isBoundary n = true) :
    ({ r with last := n } : Reader).At t :=
  ⟨h.text, hn, hb, h.limit⟩

/-- the reader behind a token that ends where it stands -/
theorem ended (h : r.At t) : ({ r with last := r.offset } : Reader).At t :=
  h.withLast (Nat.le_refl _) h.offset_boundary

end At

/-! ## over blanks and comments -/

/-- from `r` over blanks and the comments `cs` to `s` -/
structure Settles (t : Text) (r s : Reader) (cs : List Node) : Prop where
  stands : s.At t
  last_eq : s.last = r.last
  comments_eq : s.comments = cs.reverse ++ r.comments
  row : Node.Row r.offset s.offset cs
  comment : ∀ c ∈ cs, c.Regular t ∧ c.kind = .comment ∧ c.role = .part

namespace Settles

variable {r s u : Reader} {cs ds : List Node}

theorem refl (h : r.At t) : Settles t r r [] :=
  ⟨h, rfl, rfl, Nat.le_refl r.offset, fun _ hc => absurd hc List.not_mem_nil⟩

theorem trans (h : Settles t r s cs) (h' : Settles t s u ds) : Settles t r u (cs ++ ds) := by
  refine ⟨h'.stands, h'.last_eq.trans h.last_eq, ?_, h.row.append h'.row, ?_⟩
  · rw [h'.comments_eq, h.comments_eq, List.reverse_append, List.append_assoc]
  · intro c hc
    rcases List.mem_append.mp hc with hc | hc
    · exact h.comment c hc
    · exact h'.comment c hc

theorem offset_le (h : Settles t r s cs) : r.offset ≤ s.offset := h.row.le

end Settles

/-- neither a blank nor a comment is next -/
def Still (r : Reader) : Prop := Lexeme.blanks r.rest = 0 ∧ Lexeme.comment r.rest = none

theorem comment_pos {w : Text} {k : Nat} (h : Lexeme.comment w = some k) :
    0 < k ∧ 0 < w.length := by
  unfold Lexeme.comment at h
  split at h
  · obtain rfl := Option.some.inj h
    exact ⟨by omega, Nat.succ_pos _⟩
  · obtain ⟨n, -, rfl⟩ := Option.map_eq_some_iff.mp h
    exact ⟨by omega, Nat.succ_pos _⟩
  · cases h

theorem blanks_drop (w : Text) : Lexeme.blanks (List.drop (Lexeme.blanks w) w) = 0 := by
  induction w with
  | nil => rfl
  | cons c w ih =>
    unfold Lexeme.blanks at ih ⊢
    by_cases hc : isBlank c = true
    · rw [List.takeWhile_cons_of_pos hc]
      exact ih
    · rw [List.takeWhile_cons_of_neg hc]
      show (List.takeWhile isBlank (c :: w)).length = 0
      rw [List.takeWhile_cons_of_neg hc]
      rfl

namespace At

variable {r : Reader}

theorem skipBlanks (h : r.At t) : Settles t r r.skipBlanks [] :=
  ⟨h.advance _, advance_last _ _, advance_comments _ _, offset_le_advance _ _,
    fun _ hc => absurd hc List.not_mem_nil⟩

theorem keepComment (h : r.At t) {k : Nat} (hk : Lexeme.comment r.rest = some k) :
    ∃ c, Settles t r (r.keepComment k) [c] := by
  obtain ⟨hk0, hr0⟩ := comment_pos hk
  have hlt : r.offset < (r.advance k).offset := by
    rw [advance_eq]
    show r.offset < r.offset + Text.size (List.take k r.rest)
    obtain ⟨c, w, hw⟩ := List.exists_cons_of_length_pos hr0
    obtain ⟨j, rfl⟩ := Nat.exists_eq_succ_of_ne_zero (Nat.ne_of_gt hk0)
    rw [hw, List.take_succ_cons]
    exact Nat.lt_add_of_pos_right Text.size_pos
  have hu := h.advance k
  refine ⟨.mk .comment .part ⟨r.offset, (r.advance k).offset⟩ [], hu.withComments _,
    advance_last _ _, rfl, ⟨Nat.le_refl _, Nat.le_of_lt hlt, Nat.le_refl _⟩, ?_⟩
  intro c hc
  rw [List.mem_singleton.mp hc]
  exact ⟨.intro ⟨⟨nofun, nofun, nofun, nofun, nofun, nofun, fun _ => hlt⟩, Nat.le_of_lt hlt,
    h.offset_boundary, hu.offset_boundary⟩ fun _ hc => absurd hc List.not_mem_nil, rfl, rfl⟩

theorem settle_go (h : r.At t) (n : Nat) : ∃ cs, Settles t r (settle.go n r) cs := by
  induction n generalizing r with
  | zero => exact ⟨[], .refl h⟩
  | succ n ih =>
    have hs := h.skipBlanks
    rw [settle.go]
    cases hk : Lexeme.comment r.skipBlanks.rest with
    | none => exact ⟨[], hs⟩
    | some k =>
      obtain ⟨c, hc⟩ := hs.stands.keepComment hk
      obtain ⟨ds, hd⟩ := ih hc.stands
      exact ⟨_, (hs.trans hc).trans hd⟩

/-- **What is read over on the way to the next token**: blanks, and comments in a row. -/
theorem settles (h : r.At t) : ∃ cs, Settles t r r.settle cs := h.settle_go r.limit

end At

theorem still_settle_go {n : Nat} {r : Reader} (h : r.rest.length < n) :
    Still (settle.go n r) := by
  induction n generalizing r with
  | zero => omega
  | succ n ih =>
    have hrest : r.skipBlanks.rest = List.drop (Lexeme.blanks r.rest) r.rest := by
      unfold skipBlanks
      rw [advance_eq]
    rw [settle.go]
    cases hk : Lexeme.comment r.skipBlanks.rest with
    | none =>
      refine ⟨?_, hk⟩
      rw [hrest]
      exact blanks_drop r.rest
    | some k =>
      -- a comment takes at least one character
      obtain ⟨hk0, hr0⟩ := comment_pos hk
      refine ih ?_
      unfold keepComment
      rw [advance_eq]
      show (List.drop k r.skipBlanks.rest).length < n
      have hle : r.skipBlanks.rest.length ≤ r.rest.length := by
        rw [hrest, List.length_drop]
        exact Nat.sub_le _ _
      rw [List.length_drop]
      omega

theorem still_settle {r : Reader} (h : r.At t) : Still r.settle := still_settle_go h.limit

theorem Still.settle_eq {r : Reader} (h : Still r) : r.settle = r := by
  have hskip : r.skipBlanks = r := by
    unfold skipBlanks
    rw [h.1]
    rfl
  unfold settle
  cases r.limit with
  | zero => rfl
  | succ n =>
    rw [settle.go, hskip, h.2]

/-! ## statements that end, and bytes further on -/

/-- the end of a statement without its semicolon -/
theorem At.ended? {r s : Reader} (h : r.At t) {line : Line} (hs : r.ended? line = some s) :
    ∃ u cs, Settles t r u cs ∧ s = { u with last := u.offset } := by
  unfold Reader.ended? at hs
  generalize r.limit = n at hs
  induction n generalizing r with
  | zero => cases hs
  | succ n ih =>
    rw [ended?.go] at hs
    split at hs
    · exact ⟨r, [], .refl h, (Option.some.inj hs).symm⟩
    · have hb := h.skipBlanks
      cases hk : Lexeme.comment r.skipBlanks.rest with
      | none =>
        simp only [hk] at hs
        cases hs
      | some k =>
        simp only [hk] at hs
        obtain ⟨c, hc⟩ := hb.stands.keepComment hk
        obtain ⟨u, ds, hu, rfl⟩ := ih hc.stands hs
        exact ⟨u, _, (hb.trans hc).trans hu, rfl⟩

end Reader

end StorySuite.Grammar
