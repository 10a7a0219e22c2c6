import Mathlib.Data.List.TakeWhile
import StorySuite.Output.Target
import StorySuite.Proofs.Text.Fields

/-!
# Steps of paths

What a path means is the list of its steps, so what is made of paths is told by the steps of the
result.

* `walk_components`          a path leads where its steps lead;
* `walk_front`, `walk_join`  the steps of both paths, one after the other;
* `exists_front_of_below?`   what is left of a path below another ends with the same name;
* `exists_place`             a file's output has its name and its map stands next to it;
* `length_parent?`           a parent is shorter.
-/

namespace StorySuite.Path

/-- the steps that the pieces of a text stand for -/
def steps (t : Text) : List Component := (Text.fields '/' t).filterMap Component.ofPiece?

/-- a piece that stands for a step down -/
def IsName (n : Text) : Prop := Component.ofPiece? n = some (.named n) ∧ '/' ∉ n

/-! ## pieces -/

theorem ofPiece?_eq_none {p : Text} : Component.ofPiece? p = none ↔ p = [] ∨ p = ['.'] := by
  unfold Component.ofPiece?
  simp only [Bool.or_eq_true, decide_eq_true_eq]
  split
  · next h => exact ⟨fun _ => h, fun _ => rfl⟩
  · next h =>
    refine ⟨fun h' => ?_, fun h' => absurd h' h⟩
    split at h' <;> cases h'

theorem eq_of_ofPiece? {p n : Text} (h : Component.ofPiece? p = some (.named n)) : p = n := by
  unfold Component.ofPiece? at h
  split at h
  · cases h
  · split at h
    · cases h
    · exact Component.named.inj (Option.some.inj h)

theorem steps_append (s t : Text) : steps (s ++ '/' :: t) = steps s ++ steps t := by
  rw [steps, Text.fields_append, List.filterMap_append]
  rfl

theorem steps_slash (t : Text) : steps ('/' :: t) = steps t := steps_append [] t

theorem steps_current (t : Text) : steps ('.' :: '/' :: t) = steps t := steps_append ['.'] t

theorem steps_of_not_mem {f : Text} (h : '/' ∉ f) : steps f = (Component.ofPiece? f).toList := by
  rw [steps, Text.fields_of_not_mem h]
  cases hf : Component.ofPiece? f <;> simp [hf]

theorem steps_name {n : Text} (h : IsName n) : steps n = [.named n] := by
  rw [steps_of_not_mem h.2, h.1]
  rfl

/-- the first piece of a text, and the rest of it -/
theorem exists_first (t : Text) : ∃ f rest, t = f ++ rest ∧ '/' ∉ f ∧
    t.dropWhile (· != '/') = rest ∧ (rest = [] ∨ ∃ u, rest = '/' :: u) ∧
    steps t = (Component.ofPiece? f).toList ++ steps rest := by
  have hall : ∀ {f : Text}, '/' ∉ f → ∀ c ∈ f, (c != '/') = true := fun hf c hc =>
    bne_iff_ne.mpr fun h => hf (h ▸ hc)
  induction t using Text.fields_induction '/' with
  | one f hf =>
    refine ⟨f, [], (List.append_nil f).symm, hf, List.dropWhile_eq_nil_iff.mpr (hall hf),
      Or.inl rfl, ?_⟩
    rw [steps_of_not_mem hf]
    exact (List.append_nil _).symm
  | more f u hf _ =>
    refine ⟨f, '/' :: u, rfl, hf, ?_, Or.inr ⟨u, rfl⟩, ?_⟩
    · rw [List.dropWhile_append_of_pos (hall hf)]
      rfl
    · rw [steps_append, steps_of_not_mem hf, steps_slash]

/-- a text that begins with none of the pieces that count for nothing -/
def Begins (t : Text) : Prop :=
  (∀ u, t = '/' :: u → False) ∧ (t = ['.'] → False) ∧ ∀ u, t = '.' :: '/' :: u → False

/-- the first piece of such a text counts -/
theorem Begins.steps_eq {t : Text} (h : Begins t) (hne : t ≠ []) :
    ∃ c, steps t = c :: steps (t.dropWhile (· != '/')) := by
  obtain ⟨h1, h2, h3⟩ := h
  obtain ⟨f, rest, ht, -, hd, hrest, hs⟩ := exists_first t
  rw [hd, hs]
  cases hp : Component.ofPiece? f with
  | some c => exact ⟨c, rfl⟩
  | none =>
    rcases ofPiece?_eq_none.mp hp with rfl | rfl <;> rcases hrest with rfl | ⟨u, rfl⟩
    · exact absurd ht hne
    · exact (h1 u ht).elim
    · exact (h2 ht).elim
    · exact (h3 u ht).elim

/-! ## where a path leads -/

theorem walk_append (here : List Text) (a b : List Component) :
    walk here (a ++ b) = walk (walk here a) b := by
  induction a generalizing here with
  | nil => rfl
  | cons c a ih => cases c <;> exact ih _

/-- where the steps of a path begin -/
def origin (here : List Text) (p : Text) : List Text := if isAbsolute p then [] else here

theorem splitHead_cases (p : Text) :
    (∃ t, p = '/' :: t ∧ splitHead p = (['/'], t)) ∨ (p = ['.'] ∧ splitHead p = (['.'], [])) ∨
      (∃ t, p = '.' :: '/' :: t ∧ splitHead p = (['.'], '/' :: t)) ∨
      (Begins p ∧ splitHead p = ([], p)) := by
  fun_cases splitHead p with
  | case1 t => exact Or.inl ⟨t, rfl, rfl⟩
  | case2 => exact Or.inr (Or.inl ⟨rfl, rfl⟩)
  | case3 t => exact Or.inr (Or.inr (Or.inl ⟨t, rfl, rfl⟩))
  | case4 _ h1 h2 h3 =>
    exact Or.inr (Or.inr (Or.inr ⟨⟨h1, h2, h3⟩, rfl⟩))

theorem steps_body (p : Text) : steps (splitHead p).2 = steps p := by
  rcases splitHead_cases p with ⟨t, rfl, h⟩ | ⟨rfl, h⟩ | ⟨t, rfl, h⟩ | ⟨-, h⟩ <;> rw [h]
  · exact (steps_slash t).symm
  · rfl
  · exact (steps_slash t).trans (steps_current t).symm

/-- what a path begins with takes it to where its steps begin -/
theorem components_eq (p : Text) : ∃ head, components p = head ++ steps p ∧
    (∀ n, .named n ∉ head) ∧ ∀ here, walk here head = origin here p := by
  rcases splitHead_cases p with ⟨t, rfl, h⟩ | ⟨rfl, h⟩ | ⟨t, rfl, h⟩ | ⟨hp, h⟩ <;>
    simp only [components, h]
  · refine ⟨[.root], ?_, fun n => by simp, fun here => rfl⟩
    rw [steps_slash]
    rfl
  · exact ⟨[.current], rfl, fun n => by simp, fun here => rfl⟩
  · refine ⟨[.current], ?_, fun n => by simp, fun here => rfl⟩
    rw [steps_current, ← steps_slash]
    rfl
  · refine ⟨[], rfl, fun n => List.not_mem_nil, fun here => ?_⟩
    cases p with
    | nil => rfl
    | cons c t =>
      have hc : c ≠ '/' := fun h => hp.1 t (h ▸ rfl)
      show here = if isAbsolute (c :: t) then [] else here
      rw [if_neg (by simpa [isAbsolute] using hc)]

theorem walk_components (here : List Text) (p : Text) :
    walk here (components p) = walk (origin here p) (steps p) := by
  obtain ⟨head, h, -, hw⟩ := components_eq p
  rw [h, walk_append, hw]

/-! ## the ends of a text -/

theorem steps_dropEmpty (t : Text) : steps (dropEmpty t) = steps t := by
  fun_induction dropEmpty t with
  | case1 t ih => rw [ih, steps_slash]
  | case2 => rfl
  | case3 t ih => rw [ih, steps_current]
  | case4 => rfl

theorem begins_dropEmpty (t : Text) : Begins (dropEmpty t) := by
  fun_induction dropEmpty t with
  | case1 t ih => exact ih
  | case2 => exact ⟨nofun, nofun, nofun⟩
  | case3 t ih => exact ih
  | case4 _ h1 h2 h3 => exact ⟨h1, h2, h3⟩

theorem dropEmpty_suffix (t : Text) : dropEmpty t <:+ t := by
  fun_induction dropEmpty t with
  | case1 t ih => exact ih.trans (List.suffix_cons _ _)
  | case2 => exact List.nil_suffix
  | case3 t ih => exact ih.trans ((List.suffix_cons _ _).trans (List.suffix_cons _ _))
  | case4 => exact List.suffix_refl _

theorem isPrefix_dropEmptyEnd (t : Text) : dropEmptyEnd t <+: t := by
  have h := List.reverse_prefix.mpr (dropEmpty_suffix t.reverse)
  rwa [List.reverse_reverse] at h

theorem steps_reverse_dropEmpty (t : Text) : steps (dropEmpty t).reverse = steps t.reverse := by
  fun_induction dropEmpty t with
  | case1 t ih =>
    rw [ih, List.reverse_cons, steps_append]
    exact (List.append_nil _).symm
  | case2 => rfl
  | case3 t ih =>
    have e : ('.' :: '/' :: t).reverse = t.reverse ++ '/' :: ['.'] := by simp
    rw [ih, e, steps_append]
    exact (List.append_nil _).symm
  | case4 => rfl

theorem steps_dropEmptyEnd (t : Text) : steps (dropEmptyEnd t) = steps t := by
  rw [dropEmptyEnd, steps_reverse_dropEmpty, List.reverse_reverse]

theorem steps_dropSteps (n : Nat) (t : Text) : steps (dropSteps n t) = (steps t).drop n := by
  induction n generalizing t with
  | zero => rw [dropSteps, steps_dropEmptyEnd, steps_dropEmpty, List.drop_zero]
  | succ n ih =>
    rw [dropSteps, ih, ← steps_dropEmpty t]
    by_cases h : dropEmpty t = []
    · rw [h]
      exact List.drop_nil
    · obtain ⟨c, hc⟩ := (begins_dropEmpty t).steps_eq h
      rw [hc, List.drop_succ_cons]

/-- what a file's name stands behind -/
def Front (u : Text) : Prop := u = [] ∨ ∃ v, u = v ++ ['/']

theorem Front.append {u v : Text} (hu : Front u) (hv : Front v) : Front (u ++ v) := by
  rcases hv with rfl | ⟨w, rfl⟩
  · rwa [List.append_nil]
  · exact Or.inr ⟨u ++ w, (List.append_assoc _ _ _).symm⟩

theorem steps_front {u : Text} (hu : Front u) (t : Text) : steps (u ++ t) = steps u ++ steps t := by
  rcases hu with rfl | ⟨v, rfl⟩
  · rfl
  · rw [List.append_assoc, List.singleton_append, steps_append, steps_append]
    simp [steps, Text.fields, Component.ofPiece?]

/-- **A text that is cut at its end ends with its last step.** -/
theorem exists_last {t : Text} (hne : dropEmptyEnd t ≠ []) : ∃ u f c, dropEmptyEnd t = u ++ f ∧
    Front u ∧ '/' ∉ f ∧ Component.ofPiece? f = some c := by
  obtain ⟨h1, h2, h3⟩ := begins_dropEmpty t.reverse
  obtain ⟨f, rest, ht, hf, -, hrest, -⟩ := exists_first (dropEmpty t.reverse)
  have hr : '/' ∉ f.reverse := fun h => hf (List.mem_reverse.mp h)
  have hu : Front rest.reverse := by
    rcases hrest with rfl | ⟨v, rfl⟩
    · exact Or.inl rfl
    · exact Or.inr ⟨v.reverse, List.reverse_cons⟩
  have hp : Component.ofPiece? f.reverse ≠ none := by
    intro h
    have hfe : f = [] ∨ f = ['.'] := (ofPiece?_eq_none.mp h).imp List.reverse_eq_nil_iff.mp
      fun h => List.reverse_eq_iff.mp h
    rw [ht] at h1 h2 h3
    rcases hfe with rfl | rfl <;> rcases hrest with rfl | ⟨v, rfl⟩
    · exact hne (by rw [dropEmptyEnd, ht]; rfl)
    · exact h1 v rfl
    · exact h2 rfl
    · exact h3 v rfl
  obtain ⟨c, hc⟩ := Option.ne_none_iff_exists'.mp hp
  refine ⟨rest.reverse, f.reverse, c, ?_, hu, hr, hc⟩
  rw [dropEmptyEnd, ht, List.reverse_append]

theorem dropSteps_eq (n : Nat) (t : Text) : ∃ u, dropSteps n t = dropEmptyEnd u := by
  induction n generalizing t with
  | zero => exact ⟨_, rfl⟩
  | succ n ih => exact ih _

/-! ## files -/

theorem isName_of_mem_steps {t n : Text} (h : .named n ∈ steps t) : IsName n := by
  obtain ⟨f, hf, hn⟩ := List.mem_filterMap.mp h
  obtain rfl := eq_of_ofPiece? hn
  exact ⟨hn, Text.not_mem_of_mem_fields hf⟩

theorem IsName.not_absolute {n : Text} (h : IsName n) : isAbsolute n = false := by
  cases n with
  | nil => rfl
  | cons c n =>
    have hc : c ≠ '/' := fun e => h.2 (e ▸ List.mem_cons_self)
    simp [isAbsolute, hc]

theorem steps_front_name {u n : Text} (hu : Front u) (h : IsName n) :
    steps (u ++ n) = steps u ++ [.named n] := by
  rw [steps_front hu, steps_name h]

/-- a relative path does not change where what it stands behind begins -/
theorem origin_front (here : List Text) {u q : Text} (hu : Front u) (hq : isAbsolute q = false) :
    origin here (u ++ q) = origin here u := by
  rcases hu with rfl | ⟨v, rfl⟩
  · show (if isAbsolute q then [] else here) = here
    rw [hq]
    rfl
  · cases v <;> rfl

/-- a relative path leads on from what it stands behind -/
theorem walk_front (here : List Text) {u q : Text} (hu : Front u) (hq : isAbsolute q = false) :
    walk here (components (u ++ q)) = walk (walk here (components u)) (steps q) := by
  rw [walk_components, walk_components, origin_front here hu hq, steps_front hu, walk_append]

/-- a file lies where what its name stands behind leads -/
theorem walk_front_name (here : List Text) {u n : Text} (hu : Front u) (h : IsName n) :
    walk here (components (u ++ n)) = walk here (components u) ++ [n] := by
  rw [walk_front here hu h.not_absolute, steps_name h]
  rfl

theorem fileName?_eq_some {p n : Text} :
    fileName? p = some n ↔ (steps p).getLast? = some (.named n) := by
  obtain ⟨head, e, hh, -⟩ := components_eq p
  rw [fileName?, e, List.getLast?_append]
  cases hs : (steps p).getLast? with
  | some c => cases c <;> simp
  | none =>
    cases hl : head.getLast? with
    | none => simp
    | some c =>
      have hc := List.mem_of_getLast? hl
      cases c with
      | named n => exact absurd hc (hh n)
      | _ => simp

theorem exists_parent {p n : Text} (h : fileName? p = some n) (here : List Text) :
    ∃ d, walk here (components p) = d ++ [n] := by
  obtain ⟨a, ha⟩ := List.getLast?_eq_some_iff.mp (fileName?_eq_some.mp h)
  refine ⟨walk (origin here p) a, ?_⟩
  rw [walk_components, ha, walk_append]
  rfl

theorem isName_of_fileName? {p n : Text} (h : fileName? p = some n) : IsName n :=
  isName_of_mem_steps (List.mem_of_getLast? (fileName?_eq_some.mp h))

/-- what is cut off a file's path, if it leaves something, leaves its name -/
theorem exists_front {t u n : Text} (hn : (steps t).getLast? = some (.named n))
    (hu : steps u <:+ steps t) (hne : dropEmptyEnd u ≠ []) :
    ∃ v, dropEmptyEnd u = v ++ n ∧ Front v := by
  obtain ⟨v, f, c, e, hv, hf, hc⟩ := exists_last hne
  have hs : steps u = steps v ++ [c] := by
    rw [← steps_dropEmptyEnd, e, steps_front hv, steps_of_not_mem hf, hc]
    rfl
  obtain ⟨a, ha⟩ := hu
  rw [← ha, hs, ← List.append_assoc, List.getLast?_concat] at hn
  obtain rfl := Option.some.inj hn
  obtain rfl := eq_of_ofPiece? hc
  exact ⟨v, e, hv⟩

theorem exists_front_trim {p n : Text} (hn : fileName? p = some n) :
    ∃ v, trim p = v ++ n ∧ Front v := by
  have hn' : (steps (splitHead p).2).getLast? = some (.named n) := by
    rw [steps_body]
    exact fileName?_eq_some.mp hn
  have hne : dropEmptyEnd (splitHead p).2 ≠ [] := by
    intro h
    rw [← steps_dropEmptyEnd, h] at hn'
    cases hn'
  obtain ⟨v, e, hv⟩ := exists_front hn' (List.suffix_refl _) hne
  show ∃ w, (splitHead p).1 ++ dropEmptyEnd (splitHead p).2 = w ++ n ∧ Front w
  rw [e]
  refine ⟨(splitHead p).1 ++ v, (List.append_assoc _ _ _).symm, ?_⟩
  rcases hv with rfl | ⟨w, rfl⟩
  · -- nothing is left but the head, and the name does not begin with a slash
    rcases splitHead_cases p with ⟨t, rfl, h⟩ | ⟨rfl, h⟩ | ⟨t, rfl, h⟩ | ⟨-, h⟩ <;> rw [h] at e ⊢
    · exact Or.inr ⟨[], rfl⟩
    · rw [h] at hne
      exact absurd rfl hne
    · have hp := isPrefix_dropEmptyEnd ('/' :: t)
      have hname := isName_of_fileName? hn
      rw [show dropEmptyEnd ('/' :: t) = n from e] at hp
      cases n with
      | nil => cases hname.1
      | cons c n =>
        obtain ⟨rfl, -⟩ := List.cons_prefix_cons.mp hp
        exact absurd List.mem_cons_self hname.2
    · exact Or.inl rfl
  · exact Or.inr ⟨(splitHead p).1 ++ w, (List.append_assoc _ _ _).symm⟩

theorem exists_front_of_below? {base p r n : Text} (hn : fileName? p = some n)
    (h : below? base p = some r) (hne : r ≠ []) : ∃ v, r = v ++ n ∧ Front v := by
  have hdrop : ∀ k, dropSteps k (splitHead p).2 = r → ∃ v, r = v ++ n ∧ Front v := by
    rintro k rfl
    obtain ⟨u, hu⟩ := dropSteps_eq k (splitHead p).2
    rw [hu] at hne ⊢
    refine exists_front (t := p) (fileName?_eq_some.mp hn) ?_ hne
    rw [← steps_dropEmptyEnd u, ← hu, steps_dropSteps, steps_body]
    exact List.drop_suffix _ _
  unfold below? at h
  simp only at h
  split at h
  · split at h
    · rw [← Option.some.inj h]
      exact exists_front_trim hn
    · split at h <;> exact hdrop _ (Option.some.inj h)
  · cases h

/-! ## paths behind paths -/

/-- what is put before a path that is seen from `p` -/
def front (p : Text) : Text := if p.isEmpty || p.getLast? = some '/' then p else p ++ ['/']

theorem join_eq (p : Text) {q : Text} (hq : isAbsolute q = false) : join p q = front p ++ q := by
  rw [join, if_neg (by simp [hq]), front]
  split
  · rfl
  · rw [List.append_assoc]
    rfl

theorem front_front (p : Text) : Front (front p) := by
  unfold front
  split
  · next h =>
    rcases List.eq_nil_or_concat p with rfl | ⟨v, c, rfl⟩
    · exact Or.inl rfl
    · simp at h
      exact Or.inr ⟨v, by rw [h, List.concat_eq_append]⟩
  · exact Or.inr ⟨p, rfl⟩

theorem steps_front_eq (p : Text) : steps (front p) = steps p := by
  unfold front
  split
  · rfl
  · exact (steps_append p []).trans (List.append_nil _)

theorem origin_front_eq (here : List Text) (p : Text) : origin here (front p) = origin here p := by
  unfold front
  split
  · rfl
  · next h =>
    cases p with
    | nil => exact absurd rfl h
    | cons c p => rfl

theorem walk_front_eq (here : List Text) (p : Text) :
    walk here (components (front p)) = walk here (components p) := by
  rw [walk_components, walk_components, steps_front_eq, origin_front_eq]

/-- **A relative path leads on from the path that it is seen from.** -/
theorem walk_join (here : List Text) (p : Text) {q : Text} (hq : isAbsolute q = false) :
    walk here (components (join p q)) = walk (walk here (components p)) (steps q) := by
  rw [join_eq p hq, walk_front here (front_front p) hq, walk_front_eq]

theorem splitHead_append (p : Text) : (splitHead p).1 ++ (splitHead p).2 = p := by
  rcases splitHead_cases p with ⟨t, rfl, h⟩ | ⟨rfl, h⟩ | ⟨t, rfl, h⟩ | ⟨-, h⟩ <;> rw [h] <;> rfl

theorem length_dropWhile_dropEmpty {t : Text} (h : dropEmpty t ≠ []) :
    ((dropEmpty t).dropWhile (· != '/')).length < t.length := by
  have hle := (dropEmpty_suffix t).length_le
  have hb := (begins_dropEmpty t).1
  cases he : dropEmpty t with
  | nil => exact absurd he h
  | cons c u =>
    have hc : c ≠ '/' := fun e => hb u (by rw [he, e])
    rw [he, List.length_cons] at hle
    rw [List.dropWhile_cons_of_pos (by simpa using hc)]
    have := (List.dropWhile_suffix (fun c : Char => c != '/') (l := u)).length_le
    omega

theorem length_parent? {p q : Text} (h : parent? p = some q) : q.length < p.length := by
  have hp := congrArg List.length (splitHead_append p)
  rw [List.length_append] at hp
  unfold parent? at h
  simp only at h
  split at h
  · split at h
    · next hh =>
      obtain rfl := Option.some.inj h
      rw [hh] at hp
      exact hp ▸ Nat.lt_add_right _ Nat.one_pos
    · cases h
  · next hb =>
    -- the last step is cut off, which has a character
    have hlt := length_dropWhile_dropEmpty (t := (splitHead p).2.reverse)
      fun e => hb (by rw [dropEmptyEnd, e]; rfl)
    have hr : (dropEmptyEnd (splitHead p).2).reverse = dropEmpty (splitHead p).2.reverse :=
      List.reverse_reverse _
    have hle := (isPrefix_dropEmptyEnd
      ((dropEmptyEnd (splitHead p).2).reverse.dropWhile (· != '/')).reverse).length_le
    rw [List.length_reverse, hr] at hle
    rw [List.length_reverse] at hlt
    rw [← Option.some.inj h, List.length_append, hr]
    omega

end StorySuite.Path

namespace StorySuite.Output

open StorySuite.Path

/-- **A test module has the name of its story file.** -/
theorem codePath_eq {file n : Text} (hn : fileName? file = some n) (root directory : Text) :
    ∃ u, codePath file root directory = u ++ n ∧ Front u := by
  obtain ⟨v, hv, hv'⟩ : ∃ v, codePath file root directory = join directory (v ++ n) ∧ Front v := by
    unfold codePath
    simp only
    split
    · next c t h =>
      obtain ⟨v, hv, hv'⟩ := exists_front_of_below? hn h (List.cons_ne_nil _ _)
      exact ⟨v, by rw [hv], hv'⟩
    · exact ⟨[], by rw [hn]; rfl, Or.inl rfl⟩
  rw [hv]
  cases ha : isAbsolute (v ++ n) with
  | true => exact ⟨v, by rw [join, if_pos ha], hv'⟩
  | false =>
    rw [join_eq directory ha, ← List.append_assoc]
    exact ⟨_, rfl, (front_front directory).append hv'⟩

theorem isName_mapPath {n : Text} (h : IsName n) : IsName (mapPath n) := by
  have hlen : 4 ≤ (mapPath n).length := by
    rw [mapPath, List.length_append]
    exact Nat.le_add_left 4 _
  refine ⟨?_, fun hm => ?_⟩
  · have hne : ∀ t : Text, t.length < 4 → mapPath n ≠ t := fun t ht e => by
      rw [e] at hlen
      omega
    rw [Component.ofPiece?, if_neg (by simp [hne]), if_neg (hne _ (by decide))]
  · rcases List.mem_append.mp hm with hm | hm
    · exact h.2 hm
    · exact absurd hm (by decide)

theorem extensionOf?_mapPath {n : Text} (h : n ≠ []) :
    extensionOf? (mapPath n) = some ".map".toList.tail := by
  have hr : (mapPath n).reverse = "pam.".toList ++ n.reverse := List.reverse_append
  obtain ⟨c, t, ht⟩ := List.exists_cons_of_ne_nil (mt List.reverse_eq_nil_iff.mp h)
  unfold extensionOf?
  rw [hr, ht]
  rfl

/-- **Where a test module and its source map go**: next to each other, under the name of the story
file and under this name with an ending of its own. -/
theorem exists_place {file n : Text} (hn : fileName? file = some n) (here : List Text)
    (root directory : Text) : ∃ d,
      walk here (components (codePath file root directory)) = d ++ [n] ∧
      walk here (components (mapPath (codePath file root directory))) = d ++ [mapPath n] := by
  have hname := isName_of_fileName? hn
  obtain ⟨u, e, hu⟩ := codePath_eq hn root directory
  have hmap : mapPath (u ++ n) = u ++ mapPath n := List.append_assoc _ _ _
  refine ⟨walk here (components u), ?_, ?_⟩
  · rw [e, walk_front_name here hu hname]
  · rw [e, hmap, walk_front_name here hu (isName_mapPath hname)]

end StorySuite.Output
