import StorySuite.Text.Basic

/-!
# Fields

The pieces of a text between the occurrences of a mark.  Everything about them follows from one
equation: a mark between two texts puts their fields one after the other.

* `fields_append`      **the equation**;
* `fields_induction`   a text is one field, or a field with a mark and a text behind it;
* `fields_join`        fields without the mark between them;
* `join_fields`        the fields of a text are the text.
-/

namespace StorySuite.Text

variable {sep : Char}

theorem fields_ne_nil (t : Text) : fields sep t ≠ [] := by
  cases t with
  | nil => exact List.cons_ne_nil _ _
  | cons c t =>
    rw [fields]
    split
    · exact List.cons_ne_nil _ _
    · split <;> exact List.cons_ne_nil _ _

theorem fields_append (s t : Text) : fields sep (s ++ sep :: t) = fields sep s ++ fields sep t := by
  induction s with
  | nil =>
    show (if sep = sep then [] :: fields sep t else _) = _
    rw [if_pos rfl]
    rfl
  | cons c s ih =>
    rw [List.cons_append, fields, fields, ih]
    split
    · rfl
    · cases hs : fields sep s with
      | nil => exact absurd hs (fields_ne_nil s)
      | cons f fs => rfl

theorem fields_of_not_mem {f : Text} (hf : sep ∉ f) : fields sep f = [f] := by
  induction f with
  | nil => rfl
  | cons c f ih =>
    have hc : c ≠ sep := fun h => hf (h ▸ List.mem_cons_self)
    rw [fields, if_neg hc, ih fun h => hf (List.mem_cons_of_mem _ h)]

theorem fields_induction (sep : Char) {P : Text → Prop} (one : ∀ f, sep ∉ f → P f)
    (more : ∀ f u, sep ∉ f → P u → P (f ++ sep :: u)) (t : Text) : P t := by
  induction hn : t.length using Nat.strongRecOn generalizing t with
  | ind n ih =>
    by_cases h : sep ∈ t
    · obtain ⟨f, u, rfl, hf⟩ := List.eq_append_cons_of_mem h
      refine more f u hf (ih u.length ?_ u rfl)
      rw [List.length_append, List.length_cons] at hn
      omega
    · exact one t h

theorem not_mem_of_mem_fields {t f : Text} (h : f ∈ fields sep t) : sep ∉ f := by
  induction t using fields_induction sep with
  | one g hg =>
    rw [fields_of_not_mem hg] at h
    rwa [List.mem_singleton.mp h]
  | more g u hg ih =>
    rw [fields_append, fields_of_not_mem hg] at h
    rcases List.mem_append.mp h with h | h
    · rwa [List.mem_singleton.mp h]
    · exact ih h

/-- **The fields of joined texts are these texts**, unless there are none. -/
theorem fields_join {fs : List Text} (hne : fs ≠ []) (hfs : ∀ f ∈ fs, sep ∉ f) :
    fields sep (join [sep] fs) = fs := by
  induction fs with
  | nil => exact absurd rfl hne
  | cons f fs ih =>
    have hf := hfs f List.mem_cons_self
    cases fs with
    | nil => exact fields_of_not_mem hf
    | cons g gs =>
      show fields sep (f ++ [sep] ++ join [sep] (g :: gs)) = _
      rw [List.append_assoc, List.singleton_append, fields_append, fields_of_not_mem hf,
        ih (List.cons_ne_nil _ _) fun h hh => hfs h (List.mem_cons_of_mem _ hh)]
      rfl

/-- texts in front of others, each with the mark behind it -/
theorem join_append (sep : Text) (as : List Text) {bs : List Text} (hb : bs ≠ []) :
    join sep (as ++ bs) = as.flatMap (· ++ sep) ++ join sep bs := by
  induction as with
  | nil => rfl
  | cons a as ih =>
    obtain ⟨c, cs, hcs⟩ : ∃ c cs, as ++ bs = c :: cs :=
      List.exists_cons_of_ne_nil (List.append_ne_nil_of_right_ne_nil as hb)
    rw [List.flatMap_cons, List.append_assoc, ← ih, List.cons_append, hcs]
    rfl

/-- a mark behind each text is one between the texts and one behind them all -/
theorem flatMap_mark (sep : Text) {fs : List Text} (hne : fs ≠ []) :
    fs.flatMap (· ++ sep) = join sep fs ++ sep := by
  obtain ⟨a, f, rfl⟩ := List.eq_nil_or_concat fs |>.resolve_left hne
  rw [List.concat_eq_append, join_append sep a (List.cons_ne_nil f []), List.flatMap_append,
    List.flatMap_singleton, List.append_assoc]
  rfl

/-- **The fields of a text, joined, are the text.** -/
theorem join_fields (t : Text) : join [sep] (fields sep t) = t := by
  induction t using fields_induction sep with
  | one f hf =>
    rw [fields_of_not_mem hf]
    rfl
  | more f u hf ih =>
    rw [fields_append, fields_of_not_mem hf, join_append _ _ (fields_ne_nil u), ih,
      List.flatMap_singleton, List.append_assoc]
    rfl

/-- what a text has that is no mark stands in one of its fields -/
theorem any_fields {p : Char → Bool} (hsep : p sep = false) (t : Text) :
    ((fields sep t).any fun f => f.any p) = t.any p := by
  induction t using fields_induction sep with
  | one f hf =>
    rw [fields_of_not_mem hf, List.any_cons, List.any_nil, Bool.or_false]
  | more f u hf ih =>
    rw [fields_append, fields_of_not_mem hf, List.any_append, ih, List.any_append, List.any_cons,
      List.any_cons, List.any_nil, Bool.or_false, hsep, Bool.false_or]

theorem mem_join {sep : Text} {fs : List Text} {c : Char} (h : c ∈ join sep fs) :
    c ∈ sep ∨ ∃ f ∈ fs, c ∈ f := by
  induction fs with
  | nil => cases h
  | cons f fs ih =>
    cases fs with
    | nil => exact Or.inr ⟨f, List.mem_cons_self, h⟩
    | cons g gs =>
      have h' : c ∈ f ++ sep ++ join sep (g :: gs) := h
      rcases List.mem_append.mp h' with h' | h'
      · rcases List.mem_append.mp h' with h' | h'
        · exact Or.inr ⟨f, List.mem_cons_self, h'⟩
        · exact Or.inl h'
      · rcases ih h' with h' | ⟨k, hk, h'⟩
        · exact Or.inl h'
        · exact Or.inr ⟨k, List.mem_cons_of_mem _ hk, h'⟩

end StorySuite.Text
