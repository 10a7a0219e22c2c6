import StorySuite.Text.Quoted

/-!
# Quoted texts inside of others

A quoted text ends at the first quote without a backslash in front of it, so it is known where it
ends before anything behind it is looked at.

* `Quoted.escape_cases`    how a character is written;
* `Quoted.read?`           the quoted text at the front of a text, and what follows it;
* `Quoted.read?_encode`    **what is written in quotes is read back, whatever follows it**;
* `Quoted.decode?_encode`  also where nothing does;
* `Text.OneLine`           texts without a line end, which quoted ones are.
-/

namespace StorySuite

/-- a text that does not go beyond its line -/
def Text.OneLine (t : Text) : Prop := ∀ c ∈ t, c ≠ '\n' ∧ c ≠ '\r'

-- through the characters of the text; characters being finite, they could all be gone through
instance (t : Text) : Decidable t.OneLine :=
  List.decidableBAll (fun c => c ≠ '\n' ∧ c ≠ '\r') t

@[simp] theorem Text.oneLine_append {s t : Text} :
    (s ++ t).OneLine ↔ s.OneLine ∧ t.OneLine := List.forall_mem_append

theorem Text.oneLine_cons {c : Char} {t : Text} :
    Text.OneLine (c :: t) ↔ (c ≠ '\n' ∧ c ≠ '\r') ∧ t.OneLine := List.forall_mem_cons

theorem Text.oneLine_singleton {c : Char} (hn : c ≠ '\n') (hr : c ≠ '\r') : Text.OneLine [c] :=
  List.forall_mem_singleton.mpr ⟨hn, hr⟩

theorem Text.oneLine_flatMap {f : Char → Text} (h : ∀ c, (f c).OneLine) (t : Text) :
    Text.OneLine (t.flatMap f) := by
  intro d hd
  obtain ⟨c, -, hd⟩ := List.mem_flatMap.mp hd
  exact h c d hd

namespace Quoted

/-- what stands between the quotes, and what follows the one that closes -/
def body? : Text → Option (Text × Text)
  | [] => none
  | '\\' :: c :: t =>
    (body? t).map fun p =>
      ((if c = 'n' then '\n' else if c = 'r' then '\r' else c) :: p.1, p.2)
  | c :: t =>
    if c = '\x27' then some ([], t)
    else if c = '\\' || c = '\n' || c = '\r' then none
    else (body? t).map fun p => (c :: p.1, p.2)

/-- **The quoted text at the front of a text**, and what follows it. -/
def read? : Text → Option (Text × Text)
  | '\x27' :: t => body? t
  | _ => none

theorem escape_cons (c : Char) (t : Text) : escape (c :: t) = escape [c] ++ escape t := by
  rw [escape, escape, escape, List.append_nil]

/-- the characters that are not written as they are, each with the one behind its backslash -/
def marks : List (Char × Char) := [('\\', '\\'), ('\x27', '\x27'), ('\n', 'n'), ('\r', 'r')]

/-- **How a character is written**: behind a backslash, or as it is. -/
theorem escape_cases (c : Char) : (∃ e, escape [c] = ['\\', e] ∧ (c, e) ∈ marks) ∨
    (escape [c] = [c] ∧ c ≠ '\\' ∧ c ≠ '\x27' ∧ c ≠ '\n' ∧ c ≠ '\r') := by
  by_cases h₁ : c = '\\'
  · exact .inl ⟨'\\', by rw [h₁]; rfl, by rw [h₁]; decide⟩
  by_cases h₂ : c = '\x27'
  · exact .inl ⟨'\x27', by rw [h₂]; rfl, by rw [h₂]; decide⟩
  by_cases h₃ : c = '\n'
  · exact .inl ⟨'n', by rw [h₃]; rfl, by rw [h₃]; decide⟩
  by_cases h₄ : c = '\r'
  · exact .inl ⟨'r', by rw [h₄]; rfl, by rw [h₄]; decide⟩
  refine .inr ⟨?_, h₁, h₂, h₃, h₄⟩
  rw [escape, if_neg h₁, if_neg h₂, if_neg h₃, if_neg h₄]
  rfl

/-- what is written for a character is read as this character -/
theorem body?_escape_cons (c : Char) (t : Text) :
    body? (escape [c] ++ t) = (body? t).map fun p => (c :: p.1, p.2) := by
  rcases escape_cases c with ⟨e, he, hmark⟩ | ⟨he, h₁, h₂, h₃, h₄⟩
  · have hread : ∀ p ∈ marks,
        (if p.2 = 'n' then '\n' else if p.2 = 'r' then '\r' else p.2) = p.1 := by decide
    rw [he, List.cons_append, List.singleton_append, body?, hread _ hmark]
  · rw [he, List.singleton_append, body?, if_neg h₂, if_neg (by simp [h₁, h₃, h₄])]
    exact fun d u h _ => h₁ h

theorem body?_escape (t rest : Text) : body? (escape t ++ '\x27' :: rest) = some (t, rest) := by
  induction t with
  | nil => rfl
  | cons c t ih =>
    rw [escape_cons, List.append_assoc, body?_escape_cons, ih]
    rfl

/-- **What is written in quotes is read back, whatever follows it.** -/
theorem read?_encode (t rest : Text) : read? (encode t ++ rest) = some (t, rest) := by
  have hquote : encode t ++ rest = '\x27' :: (escape t ++ '\x27' :: rest) := by simp [encode]
  rw [hquote]
  exact body?_escape t rest

/-- to stand alone is to have nothing behind -/
theorem unescape?_eq (t : Text) :
    unescape? t = (body? t).bind fun p => if p.2.isEmpty then some p.1 else none := by
  have hpush : ∀ (c : Char) (o : Option (Text × Text)),
      (o.bind fun p => if p.2.isEmpty then some p.1 else none).map (c :: ·) =
        (o.map fun p => (c :: p.1, p.2)).bind fun p => if p.2.isEmpty then some p.1 else none := by
    intro c o
    cases o with
    | none => rfl
    | some p =>
      show (if p.2.isEmpty then some p.1 else none).map (c :: ·) =
        if p.2.isEmpty then some (c :: p.1) else none
      split <;> rfl
  fun_induction unescape? t with
  | case1 => rfl
  | case2 c t ih =>
    rw [ih, body?]
    exact hpush _ _
  | case3 t ht hplain =>
    rw [body?, if_pos rfl]
    · exact (if_pos ht).symm
    · exact hplain
  | case4 t ht hplain =>
    rw [body?, if_pos rfl]
    · exact (if_neg ht).symm
    · exact hplain
  | case5 c t hplain hc hstop =>
    rw [body?, if_neg hc, if_pos hstop]
    · rfl
    · exact hplain
  | case6 c t hplain hc hgo ih =>
    rw [ih, body?, if_neg hc, if_neg hgo]
    · exact hpush _ _
    · exact hplain

/-- **A quoted text stands for the text that it was made of.** -/
theorem decode?_encode (t : Text) : decode? (encode t) = some t := by
  show unescape? (escape t ++ ['\x27']) = some t
  rw [unescape?_eq, body?_escape]
  rfl

theorem oneLine_escape (t : Text) : (escape t).OneLine := by
  have hmarks : ∀ p ∈ marks, Text.OneLine ['\\', p.2] := by decide
  induction t with
  | nil => decide
  | cons c t ih =>
    rw [escape_cons]
    refine Text.oneLine_append.mpr ⟨?_, ih⟩
    rcases escape_cases c with ⟨e, he, hmark⟩ | ⟨he, -, -, hn, hr⟩
    · rw [he]
      exact hmarks _ hmark
    · rw [he]
      exact Text.oneLine_singleton hn hr

/-- **A quoted text is on one line.** -/
theorem oneLine_encode (t : Text) : (encode t).OneLine := by
  have hquote : Text.OneLine ['\x27'] := by decide
  exact Text.oneLine_append.mpr ⟨Text.oneLine_cons.mpr ⟨by decide, oneLine_escape t⟩, hquote⟩

end Quoted

end StorySuite
