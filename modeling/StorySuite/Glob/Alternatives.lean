import StorySuite.Glob.Match

/-!
# Alternatives

Before a text is read as a pattern, its groups are spelled out: `{a,b}` and `@(a|b)` stand for
either of their parts.  Groups can be nested, and any bracket inside one has to be closed before
the group can be.  A text whose first group is never closed is left as it is.

`expand t` are the texts that `t` stands for, in order, and never none.
-/

namespace StorySuite.Glob

/-- A text with a group in it: what stands before the group, its parts and what stands after it. -/
structure Group where
  before : Text
  parts : List Text
  after : Text

namespace Group

/-- The text with one part in the place of the group. -/
def choose (g : Group) (part : Text) : Text := g.before ++ part ++ g.after

/-- What stands before the first group, what separates its parts and what follows its opening. -/
def opening? : Text → Option (Text × Char × Text)
  | [] => none
  | '{' :: t => some ([], ',', t)
  | '@' :: '(' :: t => some ([], '|', t)
  | c :: t => (opening? t).map fun o => (c :: o.1, o.2)

/-- A character in front of the first part. -/
def push (c : Char) : List Text × Text → List Text × Text
  | ([], t) => ([[c]], t)
  | (p :: ps, t) => ((c :: p) :: ps, t)

/-- The parts of a group up to its end, and what follows; `depth` brackets are open inside. -/
def parts? (separator : Char) : Nat → Text → Option (List Text × Text)
  | _, [] => none
  | depth, c :: t =>
    if c = '{' || c = '(' then (parts? separator (depth + 1) t).map (push c)
    else if c = '}' || c = ')' then
      match depth with
      | 0 => some ([[]], t)
      | d + 1 => (parts? separator d t).map (push c)
    else if c = separator && depth = 0 then
      (parts? separator 0 t).map fun r => ([] :: r.1, r.2)
    else (parts? separator depth t).map (push c)

/-- The first group of a text, if it is closed. -/
def first? (t : Text) : Option Group :=
  match opening? t with
  | none => none
  | some (before, separator, inner) =>
    (parts? separator 0 inner).map fun r => ⟨before, r.1, r.2⟩

theorem length_of_opening? {t b i : Text} {s : Char} (h : opening? t = some (b, s, i)) :
    b.length + i.length < t.length := by
  induction t using opening?.induct generalizing b with
  | case1 => simp [opening?] at h
  | case2 t =>
    simp only [opening?, Option.some.injEq, Prod.mk.injEq] at h
    obtain ⟨rfl, -, rfl⟩ := h
    simp
  | case3 t =>
    simp only [opening?, Option.some.injEq, Prod.mk.injEq] at h
    obtain ⟨rfl, -, rfl⟩ := h
    simp only [List.length_cons, List.length_nil]
    omega
  | case4 c t h1 h2 ih =>
    rw [opening?] at h
    · obtain ⟨⟨b', s', i'⟩, ho, he⟩ := Option.map_eq_some_iff.1 h
      simp only [Prod.mk.injEq] at he
      obtain ⟨rfl, rfl, rfl⟩ := he
      have := ih ho
      simp only [List.length_cons]
      omega
    all_goals assumption

theorem length_push {c : Char} {r : List Text × Text} {n : Nat} (hr : r.2.length < n)
    (h : ∀ p ∈ r.1, p.length + r.2.length < n) :
    ∀ p ∈ (push c r).1, p.length + (push c r).2.length < n + 1 := by
  obtain ⟨ps, t⟩ := r
  cases ps with
  | nil =>
    intro p hp
    simp only [push, List.mem_singleton] at hp
    subst hp
    simp [push] at hr ⊢
    omega
  | cons q qs =>
    intro p hp
    simp only [push, List.mem_cons] at hp
    rcases hp with rfl | hp
    · have := h q (List.mem_cons_self ..)
      simp only [push, List.length_cons] at this ⊢
      omega
    · have := h p (List.mem_cons_of_mem _ hp)
      simp only [push] at this ⊢
      omega

@[simp] theorem push_snd (c : Char) (r : List Text × Text) : (push c r).2 = r.2 := by
  obtain ⟨ps, t⟩ := r
  cases ps <;> rfl

/-- Behind the end of a group there is less than behind its beginning, and so there is with any of
its parts in front. -/
theorem length_of_parts? {sep : Char} {t : Text} {d : Nat} {r : List Text × Text}
    (h : parts? sep d t = some r) :
    r.2.length < t.length ∧ ∀ p ∈ r.1, p.length + r.2.length < t.length := by
  induction t generalizing d r with
  | nil => simp [parts?] at h
  | cons c t ih =>
    have pushed : ∀ d', (parts? sep d' t).map (push c) = some r →
        r.2.length < (c :: t).length ∧ ∀ p ∈ r.1, p.length + r.2.length < (c :: t).length := by
      intro d' h'
      obtain ⟨r', hr', rfl⟩ := Option.map_eq_some_iff.1 h'
      obtain ⟨h1, h2⟩ := ih hr'
      refine ⟨?_, length_push h1 h2⟩
      simp only [push_snd, List.length_cons]
      omega
    unfold parts? at h
    split at h
    · exact pushed _ h
    · split at h
      · cases d with
        | zero =>
          simp only [Option.some.injEq] at h
          subst h
          simp
        | succ d => exact pushed _ h
      · split at h
        · obtain ⟨r', hr', rfl⟩ := Option.map_eq_some_iff.1 h
          obtain ⟨h1, h2⟩ := ih hr'
          simp only [List.length_cons]
          refine ⟨by omega, ?_⟩
          intro p hp
          rcases List.mem_cons.1 hp with rfl | hp
          · simp only [List.length_nil]
            omega
          · have := h2 p hp
            omega
        · exact pushed _ h

/-- With one part in the place of its first group a text is shorter. -/
theorem length_choose {t : Text} {g : Group} (h : first? t = some g) {p : Text}
    (hp : p ∈ g.parts) : (g.choose p).length < t.length := by
  unfold first? at h
  split at h
  · simp at h
  · rename_i before sep inner ho
    obtain ⟨r, hr, rfl⟩ := Option.map_eq_some_iff.1 h
    have h1 := length_of_opening? ho
    have h2 := (length_of_parts? hr).2 p hp
    simp only [choose, List.length_append]
    omega

end Group

/-- The texts that a text with groups stands for. -/
def expand (t : Text) : List Text :=
  match h : Group.first? t with
  | none => [t]
  | some g =>
    g.parts.attach.flatMap fun p =>
      have := Group.length_choose h p.2
      expand (g.choose p.1)
termination_by t.length

/-- Whether a path matches one of the patterns that a text with groups stands for; neither `*` nor
`?` stand for slashes in it. -/
def matchesPath (pattern path : Text) : Bool :=
  (expand pattern).any fun t =>
    match Pattern.ofText t with
    | .ok p => p.accepts false path
    | .error _ => false

end StorySuite.Glob
