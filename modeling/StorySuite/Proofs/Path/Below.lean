import StorySuite.Proofs.Path.Steps

/-!
# Paths below paths

What lies below a path has the components of the path and then the names on the way, and these
names are what is left of it below the path.

* `names way`          the steps of a way;
* `components_join`    **the components of an entry of a directory**;
* `exists_below?`      **what is left below a path are the names on the way**.
-/

namespace StorySuite.Path

def names (way : List Text) : List Component := way.map .named

theorem walk_names (here way : List Text) : walk here (names way) = here ++ way := by
  induction way generalizing here with
  | nil => exact (List.append_nil here).symm
  | cons n way ih =>
    show walk (here ++ [n]) (names way) = _
    rw [ih, List.append_assoc]
    rfl

/-- the component before the steps of a path, if there is one -/
def headOf (p : Text) : List Component :=
  match (splitHead p).1 with
  | ['/'] => [.root]
  | ['.'] => [.current]
  | _ => []

theorem components_headOf (p : Text) : components p = headOf p ++ steps p := by
  rcases splitHead_cases p with ⟨t, rfl, h⟩ | ⟨rfl, h⟩ | ⟨t, rfl, h⟩ | ⟨-, h⟩ <;>
    simp only [components, headOf, h]
  · rw [steps_slash]
    rfl
  · rfl
  · rw [steps_current, ← steps_slash]
    rfl
  · rfl

theorem headOf_cases (p : Text) : (splitHead p).1 = [] ∧ headOf p = [] ∨
    (splitHead p).1 ≠ [] ∧ ∃ c, headOf p = [c] := by
  rcases splitHead_cases p with ⟨t, rfl, h⟩ | ⟨rfl, h⟩ | ⟨t, rfl, h⟩ | ⟨-, h⟩ <;>
    simp [headOf, h]

theorem components_ne_nil {p : Text} (h : p ≠ []) : components p ≠ [] := by
  rcases splitHead_cases p with ⟨t, rfl, hs⟩ | ⟨rfl, hs⟩ | ⟨t, rfl, hs⟩ | ⟨hb, hs⟩ <;>
    rw [components_headOf, headOf, hs]
  · exact List.cons_ne_nil _ _
  · exact List.cons_ne_nil _ _
  · exact List.cons_ne_nil _ _
  · obtain ⟨c, hc⟩ := hb.steps_eq h
    rw [hc]
    exact List.cons_ne_nil _ _

/-- what is put behind a path does not change how it begins -/
theorem headOf_front {p : Text} (hp : p ≠ []) (t : Text) : headOf (front p ++ t) = headOf p := by
  obtain ⟨e, he, hdot⟩ : ∃ e, front p = p ++ e ∧ (p = ['.'] → e = ['/']) := by
    unfold front
    split
    · next h =>
      refine ⟨[], (List.append_nil p).symm, ?_⟩
      rintro rfl
      exact absurd h (by decide)
    · exact ⟨['/'], rfl, fun _ => rfl⟩
  rw [he, List.append_assoc]
  rcases splitHead_cases p with ⟨u, rfl, -⟩ | ⟨rfl, -⟩ | ⟨u, rfl, -⟩ | ⟨⟨h1, h2, h3⟩, hs⟩
  · rfl
  · rw [hdot rfl]
    rfl
  · rfl
  · cases p with
    | nil => exact absurd rfl hp
    | cons c p =>
      have hc : c ≠ '/' := fun h => h1 p (by rw [h])
      have hrest : c = '.' → ∃ d u, p = d :: u ∧ d ≠ '/' := by
        rintro rfl
        cases p with
        | nil => exact absurd rfl h2
        | cons d u => exact ⟨d, u, rfl, fun h => h3 u (by rw [h])⟩
      have hnone : headOf (c :: p) = [] := by
        rw [headOf, hs]
      rw [hnone]
      by_cases hd : c = '.'
      · obtain ⟨d, u, rfl, hd'⟩ := hrest hd
        subst hd
        simp [headOf, splitHead, hd']
      · simp [headOf, splitHead, hc, hd]

/-- **The components of an entry of a directory.** -/
theorem components_join {p n : Text} (hp : p ≠ []) (hn : IsName n) :
    components (join p n) = components p ++ [.named n] := by
  rw [components_headOf, components_headOf p, join_eq p hn.not_absolute, headOf_front hp,
    steps_front_name (front_front p) hn, steps_front_eq, List.append_assoc]

theorem not_absolute_dropSteps (k : Nat) (t : Text) : isAbsolute (dropSteps k t) = false := by
  induction k generalizing t with
  | zero =>
    have hb := (begins_dropEmpty t).1
    have hp := isPrefix_dropEmptyEnd (dropEmpty t)
    rw [dropSteps]
    cases he : dropEmptyEnd (dropEmpty t) with
    | nil => rfl
    | cons c u =>
      rw [he] at hp
      obtain ⟨v, hv⟩ := hp
      have hc : c ≠ '/' := fun h => hb (u ++ v) (by rw [← hv, h]; rfl)
      simp [isAbsolute, hc]
  | succ k ih => exact ih _

/-- **What is left below a path are the names on the way.** -/
theorem exists_below? {base p : Text} {way : List Text} (hb : base ≠ [])
    (h : components p = components base ++ names way) :
    ∃ t, below? base p = some t ∧ steps t = names way ∧ isAbsolute t = false := by
  obtain ⟨k, hk⟩ : ∃ k, (components base).length = k + 1 :=
    Nat.exists_eq_succ_of_ne_zero (mt List.length_eq_zero_iff.mp (components_ne_nil hb))
  have hbelow : (components base).isPrefixOf (components p) = true := by
    rw [h]
    exact List.isPrefixOf_iff_prefix.mpr (List.prefix_append _ _)
  have hdrop : (components p).drop (k + 1) = names way := by
    rw [h, ← hk, List.drop_left]
  unfold below?
  simp only [hbelow, if_true, hk]
  refine ⟨_, rfl, ?_, ?_⟩
  · rw [components_headOf] at hdrop
    rcases headOf_cases p with ⟨he, hh⟩ | ⟨he, c, hh⟩
    · rw [if_pos (List.isEmpty_iff.mpr he), steps_dropSteps, steps_body, ← hdrop, hh]
      rfl
    · rw [if_neg (mt List.isEmpty_iff.mp he), steps_dropSteps, steps_body, ← hdrop, hh]
      rfl
  · split <;> exact not_absolute_dropSteps _ _

end StorySuite.Path

namespace StorySuite.Output

open StorySuite.Path

/-- the path of a test module is that of the output directory and the way of its story file -/
theorem exists_codePath {file root : Text} {way : List Text} (hr : root ≠ []) (hway : way ≠ [])
    (h : components file = components root ++ names way) (directory : Text) :
    ∃ t, codePath file root directory = join directory t ∧ steps t = names way ∧
      isAbsolute t = false := by
  obtain ⟨t, ht, hs, ha⟩ := exists_below? hr h
  refine ⟨t, ?_, hs, ha⟩
  unfold codePath
  rw [ht]
  cases t with
  | nil => exact absurd (List.map_eq_nil_iff.mp hs.symm) hway
  | cons c t => rfl

/-- **A test module lies below the output directory as its story file lies below its root.** -/
theorem place_below (here : List Text) {file root : Text} {way : List Text} (hr : root ≠ [])
    (hway : way ≠ []) (h : components file = components root ++ names way) (directory : Text) :
    walk here (components (codePath file root directory)) =
      walk here (components directory) ++ way := by
  obtain ⟨t, hcode, hs, ha⟩ := exists_codePath hr hway h directory
  rw [hcode, walk_join here directory ha, hs, walk_names]

end StorySuite.Output
