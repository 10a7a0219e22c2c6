import StorySuite.Text.Basic

/-!
# Cutting texts

A boundary of `t` is the size of a piece at the front of `t`, so every fact about byte offsets is
one about the pieces that they cut off:

* `isBoundary_iff`     a boundary `n` splits `t` into a piece of size `n` and the rest;
* `take_append`, `drop_append`, `slice_append`   the cuts of a concatenation at its seams;
* `exists_pieces`      two boundaries in order split `t` into three pieces;
* `slice_trans`        neighbouring slices join;
* `dropTail?_eq_some`  what is left of a text without its tail.
-/

namespace StorySuite.Text

/-! ## sizes -/

theorem size_pos {c : Char} {t : Text} : 0 < size (c :: t) := by
  have := Char.utf8Size_pos c
  rw [size_cons]
  omega

theorem size_eq_zero {t : Text} (h : size t = 0) : t = [] := by
  cases t with
  | nil => rfl
  | cons c t => exact absurd h (Nat.ne_of_gt size_pos)

/-- pieces of one size at the front of a text are the same -/
theorem append_inj {s u s' u' : Text} (h : s ++ u = s' ++ u') (hs : size s = size s') :
    s = s' ∧ u = u' := by
  have h1 : split? (s ++ u) (size s) = some (s, u) := split?_append s u
  rw [h, hs, split?_append s' u'] at h1
  have h2 := Option.some.inj h1
  exact ⟨congrArg Prod.fst h2.symm, congrArg Prod.snd h2.symm⟩

/-- the shorter of two pieces at the front of a text is at the front of the longer one -/
theorem append_of_le {s u s' u' : Text} (h : s ++ u = s' ++ u') (hs : size s ≤ size s') :
    ∃ w, s' = s ++ w ∧ u = w ++ u' := by
  rcases List.append_eq_append_iff.mp h with ⟨w, h1, h2⟩ | ⟨w, h1, h2⟩
  · exact ⟨w, h1, h2⟩
  · have hw : size w = 0 := by
      rw [h1, size_append] at hs
      omega
    have e := size_eq_zero hw
    subst e
    exact ⟨[], by rw [h1]; simp, by rw [h2]; simp⟩

/-! ## boundaries -/

theorem split?_eq_some {t : Text} {n : Nat} {p : Text × Text} (h : split? t n = some p) :
    t = p.1 ++ p.2 ∧ size p.1 = n := by
  induction t generalizing n p with
  | nil =>
    cases n with
    | zero =>
      rw [split?_zero] at h
      cases h
      exact ⟨rfl, rfl⟩
    | succ n => cases h
  | cons c t ih =>
    cases n with
    | zero =>
      rw [split?_zero] at h
      cases h
      exact ⟨rfl, rfl⟩
    | succ n =>
      rw [split?] at h
      split at h
      · next hle =>
        obtain ⟨q, hq, rfl⟩ := Option.map_eq_some_iff.mp h
        obtain ⟨h1, h2⟩ := ih hq
        refine ⟨?_, ?_⟩
        · show c :: t = c :: (q.1 ++ q.2)
          rw [← h1]
        · show c.utf8Size + size q.1 = n + 1
          omega
      · cases h

/-- **Boundaries are the sizes of the pieces at the front.** -/
theorem isBoundary_iff {t : Text} {n : Nat} :
    t.isBoundary n = true ↔ ∃ s u, t = s ++ u ∧ size s = n := by
  constructor
  · intro h
    obtain ⟨p, hp⟩ := Option.isSome_iff_exists.mp h
    obtain ⟨h1, h2⟩ := split?_eq_some hp
    exact ⟨p.1, p.2, h1, h2⟩
  · rintro ⟨s, u, rfl, rfl⟩
    show (split? (s ++ u) (size s)).isSome = true
    rw [split?_append]
    rfl

theorem isBoundary_zero (t : Text) : t.isBoundary 0 = true :=
  isBoundary_iff.mpr ⟨[], t, rfl, rfl⟩

theorem isBoundary_size (t : Text) : t.isBoundary (size t) = true :=
  isBoundary_iff.mpr ⟨t, [], (List.append_nil t).symm, rfl⟩

theorem le_size {t : Text} {n : Nat} (h : t.isBoundary n = true) : n ≤ size t := by
  obtain ⟨s, u, rfl, rfl⟩ := isBoundary_iff.mp h
  rw [size_append]
  omega

/-! ## pieces -/

@[simp] theorem take_append (s u : Text) : take (s ++ u) (size s) = s := by
  show ((split? (s ++ u) (size s)).map (·.1)).getD (s ++ u) = s
  rw [split?_append]
  rfl

@[simp] theorem drop_append (s u : Text) : drop (s ++ u) (size s) = u := by
  show ((split? (s ++ u) (size s)).map (·.2)).getD [] = u
  rw [split?_append]
  rfl

@[simp] theorem take_size (t : Text) : take t (size t) = t := by
  have h := take_append t []
  rwa [List.append_nil] at h

@[simp] theorem drop_zero (t : Text) : drop t 0 = t := drop_append [] t

/-- the middle one of three pieces -/
theorem slice_append (u w v : Text) : slice (u ++ (w ++ v)) (size u) (size u + size w) = w := by
  show take (drop (u ++ (w ++ v)) (size u)) (size u + size w - size u) = w
  rw [drop_append, Nat.add_sub_cancel_left, take_append]

theorem slice?_append (u w v : Text) :
    slice? (u ++ (w ++ v)) (size u) (size u + size w) = some w := by
  have hu : isBoundary (u ++ (w ++ v)) (size u) = true := isBoundary_iff.mpr ⟨u, w ++ v, rfl, rfl⟩
  have hw : isBoundary (u ++ (w ++ v)) (size u + size w) = true :=
    isBoundary_iff.mpr ⟨u ++ w, v, (List.append_assoc u w v).symm, size_append u w⟩
  rw [slice?, decide_eq_true (Nat.le_add_right _ _), hu, hw, slice_append]
  rfl

/-- **Two boundaries in order cut a text into three pieces.** -/
theorem exists_pieces {t : Text} {a b : Nat} (ha : t.isBoundary a = true)
    (hb : t.isBoundary b = true) (hab : a ≤ b) :
    ∃ u w v, t = u ++ (w ++ v) ∧ size u = a ∧ size u + size w = b ∧ t.slice a b = w := by
  obtain ⟨s, u, rfl, rfl⟩ := isBoundary_iff.mp ha
  obtain ⟨s', v, h, rfl⟩ := isBoundary_iff.mp hb
  obtain ⟨w, rfl, rfl⟩ := append_of_le h hab
  refine ⟨s, w, v, rfl, rfl, (size_append s w).symm, ?_⟩
  rw [size_append]
  exact slice_append s w v

theorem slice_self (t : Text) (a : Nat) : slice t a a = [] := by
  show take (drop t a) (a - a) = []
  rw [Nat.sub_self]
  exact take_append [] (drop t a)

theorem slice_zero (t : Text) (b : Nat) : slice t 0 b = take t b := by
  show take (drop t 0) (b - 0) = take t b
  rw [drop_zero, Nat.sub_zero]

theorem size_slice {t : Text} {a b : Nat} (ha : t.isBoundary a = true)
    (hb : t.isBoundary b = true) (hab : a ≤ b) : size (t.slice a b) = b - a := by
  obtain ⟨u, w, v, rfl, rfl, rfl, h⟩ := exists_pieces ha hb hab
  rw [h]
  omega

/-- neighbouring slices -/
theorem slice_trans {t : Text} {a b c : Nat} (ha : t.isBoundary a = true)
    (hb : t.isBoundary b = true) (hc : t.isBoundary c = true) (hab : a ≤ b) (hbc : b ≤ c) :
    t.slice a b ++ t.slice b c = t.slice a c := by
  obtain ⟨u, w, v, rfl, rfl, rfl, h⟩ := exists_pieces ha hb hab
  obtain ⟨u', x, y, h', hu', rfl, hx⟩ := exists_pieces hb hc hbc
  rw [← List.append_assoc] at h'
  obtain ⟨rfl, rfl⟩ := append_inj h' (by rw [size_append, hu'])
  rw [h, hx, size_append]
  have e : u ++ (w ++ (x ++ y)) = u ++ ((w ++ x) ++ y) := by rw [List.append_assoc]
  rw [e, show size u + size w + size x = size u + size (w ++ x) by rw [size_append]; omega]
  exact (slice_append u (w ++ x) y).symm

/-- a slice and all that comes behind it -/
theorem slice_append_drop {t : Text} {a b : Nat} (ha : t.isBoundary a = true)
    (hb : t.isBoundary b = true) (hab : a ≤ b) : t.slice a b ++ t.drop b = t.drop a := by
  obtain ⟨u, w, v, rfl, rfl, rfl, h⟩ := exists_pieces ha hb hab
  rw [h, drop_append, ← List.append_assoc, ← size_append, drop_append]

theorem take_append_drop {t : Text} {n : Nat} (h : t.isBoundary n = true) :
    t.take n ++ t.drop n = t := by
  obtain ⟨s, u, rfl, rfl⟩ := isBoundary_iff.mp h
  rw [take_append, drop_append]

theorem size_take {t : Text} {n : Nat} (h : t.isBoundary n = true) : size (t.take n) = n := by
  obtain ⟨s, u, rfl, rfl⟩ := isBoundary_iff.mp h
  rw [take_append]

theorem size_drop {t : Text} {n : Nat} (h : t.isBoundary n = true) :
    n + size (t.drop n) = size t := by
  obtain ⟨s, u, rfl, rfl⟩ := isBoundary_iff.mp h
  rw [drop_append, size_append]

/-! ## tails -/

/-- **`dropTail?` takes off exactly the tail.** -/
theorem dropTail?_eq_some {tail t u : Text} : dropTail? tail t = some u ↔ t = u ++ tail := by
  unfold dropTail?
  constructor
  · intro h
    split at h
    · next hs =>
      obtain ⟨w, rfl⟩ := List.isSuffixOf_iff_suffix.mp hs
      have e : (w ++ tail).length - tail.length = w.length := by simp
      rw [e, List.take_left] at h
      rw [Option.some.inj h]
    · cases h
  · rintro rfl
    have hs : tail.isSuffixOf (u ++ tail) = true :=
      List.isSuffixOf_iff_suffix.mpr (List.suffix_append u tail)
    have e : (u ++ tail).length - tail.length = u.length := by simp
    rw [if_pos hs, e, List.take_left]

theorem dropTail?_append (u tail : Text) : dropTail? tail (u ++ tail) = some u :=
  dropTail?_eq_some.mpr rfl

end StorySuite.Text
