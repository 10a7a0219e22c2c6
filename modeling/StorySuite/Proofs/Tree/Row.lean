import StorySuite.Proofs.Tree.Walk

/-!
# Siblings in a row

`Node.Row a b ns` says that the nodes `ns` stand in order and apart from each other between the
bytes `a` and `b`.

* `Row.mem`, `Row.apart`     where a sibling stands, and two of them beside each other;
* `Row.append`               one row behind another;
* `ancestors_of_mem_places`  what lies around a place of a tree.
-/

namespace StorySuite

namespace Node

/-- the nodes stand in order and apart from each other between the bytes `a` and `b` -/
def Row : Nat → Nat → List Node → Prop
  | a, b, [] => a ≤ b
  | a, b, n :: ns => a ≤ n.start ∧ n.start ≤ n.stop ∧ Row n.stop b ns

instance decidableRow : (a b : Nat) → (ns : List Node) → Decidable (Row a b ns)
  | a, b, [] => inferInstanceAs (Decidable (a ≤ b))
  | a, b, n :: ns =>
    have := decidableRow n.stop b ns
    inferInstanceAs (Decidable (a ≤ n.start ∧ n.start ≤ n.stop ∧ Row n.stop b ns))

variable {a b : Nat} {ns : List Node}

theorem Row.le (h : Row a b ns) : a ≤ b := by
  induction ns generalizing a with
  | nil => exact h
  | cons n ns ih =>
    obtain ⟨h1, h2, h3⟩ := h
    have := ih h3
    omega

theorem Row.mem (h : Row a b ns) {n : Node} (hn : n ∈ ns) :
    a ≤ n.start ∧ n.start ≤ n.stop ∧ n.stop ≤ b := by
  induction ns generalizing a with
  | nil => cases hn
  | cons c ns ih =>
    obtain ⟨h1, h2, h3⟩ := h
    rcases List.mem_cons.mp hn with rfl | hn
    · exact ⟨h1, h2, h3.le⟩
    · obtain ⟨h4, h5, h6⟩ := ih h3 hn
      exact ⟨by omega, h5, h6⟩

/-- the row fits between bytes further apart -/
theorem Row.mono (h : Row a b ns) {a' b' : Nat} (ha : a' ≤ a) (hb : b ≤ b') : Row a' b' ns := by
  induction ns generalizing a a' with
  | nil => exact Nat.le_trans ha (Nat.le_trans h hb)
  | cons n ns ih =>
    obtain ⟨h1, h2, h3⟩ := h
    exact ⟨Nat.le_trans ha h1, h2, ih h3 (Nat.le_refl _)⟩

/-- one row behind another -/
theorem Row.append (h : Row a b ns) {c : Nat} {ms : List Node} (h' : Row b c ms) :
    Row a c (ns ++ ms) := by
  induction ns generalizing a with
  | nil => exact h'.mono h (Nat.le_refl _)
  | cons n ns ih =>
    obtain ⟨h1, h2, h3⟩ := h
    exact ⟨h1, h2, ih h3⟩

/-- a row with some nodes left out -/
theorem Row.sublist {ms : List Node} (h : Row a b ns) (hs : ms.Sublist ns) : Row a b ms := by
  induction hs generalizing a with
  | slnil => exact h
  | cons n _ ih =>
    obtain ⟨h1, h2, h3⟩ := h
    exact (ih h3).mono (Nat.le_trans h1 h2) (Nat.le_refl _)
  | cons_cons n _ ih =>
    obtain ⟨h1, h2, h3⟩ := h
    exact ⟨h1, h2, ih h3⟩

/-- the last one of a row -/
theorem Row.snoc_iff {n : Node} :
    Row a b (ns ++ [n]) ↔ Row a n.start ns ∧ n.start ≤ n.stop ∧ n.stop ≤ b := by
  induction ns generalizing a with
  | nil => exact Iff.rfl
  | cons c ns ih =>
    show (a ≤ c.start ∧ c.start ≤ c.stop ∧ Row c.stop b (ns ++ [n])) ↔
      (a ≤ c.start ∧ c.start ≤ c.stop ∧ Row c.stop n.start ns) ∧ _
    rw [ih, and_assoc, and_assoc]

/-- what stands in front of one of a row, and behind it -/
theorem Row.split {xs ys : List Node} {n : Node} (h : Row a b (xs ++ n :: ys)) :
    Row a n.start xs ∧ n.start ≤ n.stop ∧ Row n.stop b ys := by
  induction xs generalizing a with
  | nil => exact h
  | cons x xs ih =>
    obtain ⟨h1, h2, h3⟩ := h
    obtain ⟨h4, h5, h6⟩ := ih h3
    exact ⟨⟨h1, h2, h4⟩, h5, h6⟩

/-- nodes in a row stand in front of one of them or behind it -/
theorem Row.sides {xs ys : List Node} {n : Node} (h : Row a b (xs ++ n :: ys)) :
    ∀ x ∈ xs ++ ys, x.start ≤ x.stop ∧ (x.stop ≤ n.start ∨ n.stop ≤ x.start) := by
  obtain ⟨h1, -, h3⟩ := h.split
  intro x hx
  rcases List.mem_append.mp hx with hx | hx
  · exact ⟨(h1.mem hx).2.1, Or.inl (h1.mem hx).2.2⟩
  · exact ⟨(h3.mem hx).2.1, Or.inr (h3.mem hx).1⟩

/-- **Two siblings are the same or one ends before the other begins.** -/
theorem Row.apart (h : Row a b ns) {x y : Node} (hx : x ∈ ns) (hy : y ∈ ns) :
    x = y ∨ x.stop ≤ y.start ∨ y.stop ≤ x.start := by
  induction ns generalizing a with
  | nil => cases hx
  | cons c ns ih =>
    obtain ⟨-, -, h3⟩ := h
    rcases List.mem_cons.mp hx with hxc | hx
    · rcases List.mem_cons.mp hy with hyc | hy
      · exact Or.inl (hxc.trans hyc.symm)
      · rw [hxc]
        exact Or.inr (Or.inl (h3.mem hy).1)
    · rcases List.mem_cons.mp hy with hyc | hy
      · rw [hyc]
        exact Or.inr (Or.inr (h3.mem hx).1)
      · exact ih h3 hx hy

/-! ## around a place -/

mutual

theorem ancestors_of_mem_places {p : Place} (above : List Node) :
    (n : Node) → p ∈ n.places above →
      ∃ as, p.ancestors = as ++ above ∧ ∀ a ∈ as, ∃ up, ⟨a, up⟩ ∈ n.places above
  | mk k r s cs, h => by
    have hself := mem_places_self above (mk k r s cs)
    rw [places_eq] at h hself ⊢
    rcases List.mem_cons.mp h with rfl | h
    · exact ⟨[], rfl, fun a ha => absurd ha List.not_mem_nil⟩
    · obtain ⟨as, h1, h2⟩ := ancestors_of_mem_placesAll _ cs h
      refine ⟨as ++ [mk k r s cs], by rw [h1, List.append_assoc]; rfl, ?_⟩
      intro a ha
      rcases List.mem_append.mp ha with ha | ha
      · obtain ⟨up, hup⟩ := h2 a ha
        exact ⟨up, List.mem_cons_of_mem _ hup⟩
      · rw [List.mem_singleton.mp ha]
        exact ⟨above, hself⟩

theorem ancestors_of_mem_placesAll {p : Place} (above : List Node) :
    (ns : List Node) → p ∈ placesAll above ns →
      ∃ as, p.ancestors = as ++ above ∧ ∀ a ∈ as, ∃ up, ⟨a, up⟩ ∈ placesAll above ns
  | [], h => by cases h
  | n :: ns, h => by
    rw [placesAll] at h ⊢
    rcases List.mem_append.mp h with h | h
    · obtain ⟨as, h1, h2⟩ := ancestors_of_mem_places above n h
      refine ⟨as, h1, fun a ha => ?_⟩
      obtain ⟨up, hup⟩ := h2 a ha
      exact ⟨up, List.mem_append_left _ hup⟩
    · obtain ⟨as, h1, h2⟩ := ancestors_of_mem_placesAll above ns h
      refine ⟨as, h1, fun a ha => ?_⟩
      obtain ⟨up, hup⟩ := h2 a ha
      exact ⟨up, List.mem_append_right _ hup⟩

end

end Node

end StorySuite
