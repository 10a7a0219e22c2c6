import StorySuite.Proofs.Json.Written

/-!
# Values that are passed over

Of a value that is not needed only its end is looked for.  Here this end is where the value ends, for
a value of any depth and of any size, and for strings whose characters could not be read.

* `Number.skip_numeral`   a number, with a fraction and an exponent or without;
* `skip_row`              the members of a list or an object, with as many steps as it is long;
* `skips_value`           **any value is passed over, whatever stands around it**.
-/

namespace StorySuite.Json

/-! ## numbers -/

theorem Undigit.cons {c : Char} (h : c.isDigit = false) (t : Text) : Undigit (c :: t) := by
  rintro _ ⟨⟩
  exact h

theorem undigit_exponent {e rest : Text} (he : Exponent e) (hrest : Closes rest) :
    Undigit (e ++ rest) := by
  cases he with
  | none => exact .closes hrest
  | some hc => exact .cons (by rcases hc with rfl | rfl <;> rfl) _

theorem undigit_fraction {f rest : Text} (hf : Fraction f) (hrest : Undigit rest) :
    Undigit (f ++ rest) := by
  cases hf with
  | none => exact hrest
  | some => exact .cons rfl _

theorem skipExponent_append {s t rest : Text} (hs : s = [] ∨ s = ['+'] ∨ s = ['-']) (ht : Digits t)
    (hrest : Undigit rest) : skipExponent (s ++ (t ++ rest)) = .ok rest := by
  obtain ⟨hne, hall⟩ := ht
  obtain ⟨d, ds, rfl⟩ := List.exists_cons_of_ne_nil hne
  obtain ⟨hd, hds⟩ := List.forall_mem_cons.mp hall
  have hsign : (exponentSign (s ++ (d :: ds ++ rest))).2 = d :: (ds ++ rest) := by
    rcases hs with rfl | rfl | rfl
    · rw [List.nil_append, List.cons_append]
      unfold exponentSign
      split
      · next heq =>
        obtain ⟨rfl, -⟩ := List.cons.inj heq
        exact absurd hd (by decide)
      · next heq =>
        obtain ⟨rfl, -⟩ := List.cons.inj heq
        exact absurd hd (by decide)
      · rfl
    · rfl
    · rfl
  simp only [skipExponent, hsign, hd, if_true, afterDigits_append hds hrest]

theorem skipExponentPart_append {e rest : Text} (he : Exponent e) (hrest : Closes rest) :
    skipExponentPart (e ++ rest) = .ok rest := by
  cases he with
  | none =>
    obtain ⟨c, hc, u, rfl⟩ := hrest
    simp only [closers, List.mem_cons, List.not_mem_nil, or_false] at hc
    rcases hc with rfl | rfl | rfl | rfl | rfl | rfl | rfl <;> rfl
  | @some c s t hc hs ht =>
    have hmark : exponentMark? (c :: (s ++ t) ++ rest) = some (s ++ (t ++ rest)) := by
      rw [List.cons_append, List.append_assoc]
      rcases hc with rfl | rfl <;> rfl
    simp only [skipExponentPart, hmark, skipExponent_append hs ht (.closes hrest)]

theorem skipAfterInteger_append {f e rest : Text} (hf : Fraction f) (he : Exponent e)
    (hrest : Closes rest) : skipAfterInteger (f ++ (e ++ rest)) = .ok rest := by
  cases hf with
  | none =>
    have hpoint : ∀ t, e ++ rest ≠ '.' :: t := by
      intro t ht
      cases he with
      | none =>
        obtain ⟨c, hc, u, rfl⟩ := hrest
        obtain ⟨rfl, -⟩ := List.cons.inj ht
        exact absurd hc (by decide)
      | some hc =>
        rw [List.cons_append] at ht
        obtain ⟨rfl, -⟩ := List.cons.inj ht
        exact absurd hc (by decide)
    rw [List.nil_append]
    unfold skipAfterInteger
    split
    · next heq => exact absurd heq (hpoint _)
    · exact skipExponentPart_append he hrest
  | @some t ht =>
    have hall : ∀ x ∈ t, x.isDigit := ht.2
    have hundigit := undigit_exponent he hrest
    have hsome : t.isEmpty = false := by
      rw [← Bool.not_eq_true, List.isEmpty_iff]
      exact ht.1
    show skipFraction (t ++ (e ++ rest)) = _
    simp only [skipFraction, digits_append hall hundigit, hsome, Bool.false_eq_true, if_false,
      afterDigits_append hall hundigit, skipExponentPart_append he hrest]

/-- a number, with a fraction and an exponent or without -/
theorem Number.skip_numeral {t rest : Text} (h : Numeral t) (hrest : Closes rest) :
    Number.skip (t ++ rest) = .ok rest := by
  obtain ⟨hi, hf, he⟩ := h
  rename_i i f e
  have hundigit := undigit_fraction hf (undigit_exponent he hrest)
  rw [List.append_assoc, List.append_assoc]
  cases hi with
  | zero =>
    have hnone : digits (f ++ (e ++ rest)) = [] := @digits_append [] _ nofun hundigit
    rw [List.singleton_append, Number.skip, if_pos rfl, hnone]
    exact skipAfterInteger_append hf he hrest
  | @other c t hc h0 ht =>
    have hall : ∀ x ∈ t, x.isDigit := ht
    rw [List.cons_append, Number.skip, if_neg h0, if_pos hc, afterDigits_append hall hundigit]
    exact skipAfterInteger_append hf he hrest

theorem numeral_cons {t : Text} (h : Numeral t) : ∃ d u, t = d :: u ∧ d.isDigit = true := by
  obtain ⟨hi, -, -⟩ := h
  cases hi with
  | zero => exact ⟨'0', _, rfl, rfl⟩
  | other hc => exact ⟨_, _, rfl, hc⟩

/-! ## lists and objects -/

/-- **Members that are passed over**, up to the bracket `c` behind them, by a loop that takes one step
for a member and one for the bracket. -/
theorem skip_row {α : Type} {P : α → Text → Prop} {c : Char} {rest : Text} (hc : c ∈ closers)
    {loop : Nat → Bool → Text → Except Fault Text}
    (hend : ∀ n first w, Blanks w → loop (n + 1) first (w ++ c :: rest) = .ok rest)
    {as : List α} {t : Text} (row : Row P as t)
    (hstep : ∀ a ∈ as, ∀ v, P a v → ∀ n, v.length < n → ∀ first pre w u, Leads first pre →
      Blanks w → Closes u → loop (n + 1) first (pre ++ (w ++ (v ++ u))) = loop n false u) :
    ∀ n first pre, t.length + 1 < n → Leads first pre → (as = [] → first = true) →
      loop n first (pre ++ (t ++ c :: rest)) = .ok rest := by
  induction row with
  | @nil w hw =>
    intro n first pre hn lead hfirst
    obtain ⟨n, rfl⟩ : ∃ k, n = k + 1 := ⟨n - 1, by omega⟩
    obtain rfl := hfirst rfl
    cases lead
    exact hend n true w hw
  | @one a v w w' hw hv hw' =>
    intro n first pre hn lead _
    obtain ⟨n, rfl⟩ : ∃ k, n = k + 2 := ⟨n - 2, by omega⟩
    simp only [List.length_append] at hn
    rw [List.append_assoc, List.append_assoc, hstep a List.mem_cons_self v hv (n + 1) (by omega) first
      pre w _ lead hw (closes_append hw' ⟨c, hc, rest, rfl⟩)]
    exact hend n false w' hw'
  | @more a as v w w' t hw hv hw' row hne ih =>
    intro n first pre hn lead _
    obtain ⟨n, rfl⟩ : ∃ k, n = k + 1 := ⟨n - 1, by omega⟩
    simp only [List.length_append, List.length_cons] at hn
    rw [List.append_assoc, List.append_assoc, List.append_assoc, List.cons_append,
      hstep a List.mem_cons_self v hv n (by omega) first pre w _ lead hw
        (closes_append hw' ⟨',', by decide, _, rfl⟩)]
    have hrest := ih (fun b hb => hstep b (List.mem_cons_of_mem a hb)) n false (w' ++ [','])
      (by omega) (.later hw') fun h => absurd h hne
    rw [← hrest, List.append_assoc, List.singleton_append]

/-- `v` is passed over with as many steps as it is long. -/
def Passed (v : Text) : Prop :=
  ∀ n, v.length < n → ∀ w rest, Blanks w → Closes rest →
    skipValue n (w ++ (v ++ rest)) = .ok rest

/-- one step for the value itself, and the others for what is inside of it -/
theorem Passed.of_step {v : Text} (h : ∀ n, v.length ≤ n → ∀ w rest, Blanks w → Closes rest →
    skipValue (n + 1) (w ++ (v ++ rest)) = .ok rest) : Passed v := by
  intro n hn w rest hw hrest
  obtain ⟨n, rfl⟩ : ∃ k, n = k + 1 := ⟨n - 1, by omega⟩
  exact h n (Nat.le_of_lt_succ hn) w rest hw hrest

theorem skipItems_step {v : Text} (hv : Begins v) (h : Passed v) {n : Nat} (hn : v.length < n)
    {first : Bool} {pre w rest : Text} (lead : Leads first pre) (hw : Blanks w)
    (hrest : Closes rest) :
    skipItems (n + 1) first (pre ++ (w ++ (v ++ rest))) = skipItems n false rest := by
  obtain ⟨c, hc, t, rfl⟩ := hv
  have hcomma : c ≠ ',' := fun h => hc (h ▸ by decide)
  have hclose : c ≠ ']' := fun h => hc (h ▸ by decide)
  cases lead with
  | first =>
    rw [List.nil_append, List.cons_append, skipItems, skipBlanks_append hw (isBlank_eq_false hc)]
    split
    · next heq => cases heq
    · next heq => exact absurd (List.cons.inj heq).1 hclose
    · next heq => exact absurd (List.cons.inj heq).1 hcomma
    · rw [if_pos rfl, ← List.nil_append (c :: (t ++ rest)), ← List.cons_append,
        h n hn [] rest blanks_nil hrest]
      rfl
  | @later w' hw' =>
    rw [List.append_assoc, List.singleton_append, skipItems, skipBlanks_append hw' rfl]
    simp only [Bool.false_eq_true, if_false, h n hn w rest hw hrest]
    rfl

theorem skipKey_append {q w w' rest : Text} (hq : IsString q) (hw : Blanks w) (hw' : Blanks w') :
    skipKey (w ++ (q ++ (w' ++ ':' :: rest))) = .ok rest := by
  obtain ⟨u, hu, rfl⟩ := hq
  rw [List.cons_append, List.append_assoc, List.singleton_append, skipKey, skipBlanks_append hw rfl]
  show (skipCharacters _).bind colon = _
  rw [skipCharacters_stringText hu]
  exact colon_append hw' rest

theorem skipFields_step {f : Text × Text} (hf : IsString f.1) (h : Passed f.2) {v : Text}
    (hv : Pair f v) {n : Nat} (hn : v.length < n) {first : Bool} {pre w rest : Text}
    (lead : Leads first pre) (hw : Blanks w) (hrest : Closes rest) :
    skipFields (n + 1) first (pre ++ (w ++ (v ++ rest))) = skipFields n false rest := by
  obtain ⟨w₁, w₂, hw₁, hw₂, rfl⟩ := hv
  have hkey : ∀ w, Blanks w → ∃ u, skipKey (w ++ (f.1 ++ (w₁ ++ ':' :: (w₂ ++ f.2)) ++ rest)) =
      .ok u ∧ skipValue n u = .ok rest := by
    intro w hw
    simp only [List.append_assoc, List.cons_append]
    refine ⟨_, skipKey_append hf hw hw₁, h n ?_ w₂ rest hw₂ hrest⟩
    simp only [List.length_append, List.length_cons] at hn
    omega
  cases lead with
  | first =>
    obtain ⟨u, hu, hvalue⟩ := hkey [] blanks_nil
    obtain ⟨x, -, hx⟩ := hf
    rw [hx] at hu ⊢
    rw [List.nil_append, List.cons_append, List.cons_append, skipFields, skipBlanks_append hw rfl]
    rw [List.nil_append, List.cons_append, List.cons_append] at hu
    show (skipKey _).bind (fun u => (skipValue n u).bind (skipFields n false)) = _
    rw [hu]
    show (skipValue n u).bind (skipFields n false) = _
    rw [hvalue]
    rfl
  | @later w' hw' =>
    obtain ⟨u, hu, hvalue⟩ := hkey w hw
    rw [List.append_assoc, List.singleton_append, skipFields, skipBlanks_append hw' rfl]
    simp only [Bool.false_eq_true, if_false, hu]
    show (skipValue n u).bind (skipFields n false) = _
    rw [hvalue]
    rfl

/-! ## values of any kind -/

theorem value_begins {v : Text} (h : Value v) : Begins v := by
  have hnumeral : ∀ {t : Text}, Numeral t → Begins t := by
    intro t ht
    obtain ⟨d, u, rfl, hd⟩ := numeral_cons ht
    exact ⟨d, not_mem_closers_of_digit hd, u, rfl⟩
  cases h with
  | null => exact ⟨'n', by decide, _, rfl⟩
  | true => exact ⟨'t', by decide, _, rfl⟩
  | false => exact ⟨'f', by decide, _, rfl⟩
  | positive h => exact hnumeral h
  | negative h => exact ⟨'-', by decide, _, rfl⟩
  | string h =>
    obtain ⟨u, -, rfl⟩ := h
    exact ⟨'"', by decide, _, rfl⟩
  | list => exact ⟨'[', by decide, _, rfl⟩
  | object => exact ⟨'\x7b', by decide, _, rfl⟩

theorem passed_numeral {v : Text} (h : Numeral v) : Passed v := by
  refine .of_step fun n _ w rest hw hrest => ?_
  have hskip := Number.skip_numeral h hrest
  obtain ⟨d, u, rfl, hd⟩ := numeral_cons h
  have hne : ∀ x : Char, x.isDigit = false → d ≠ x := fun x hx h => by simp [← h, hd] at hx
  have hblank : isBlank d = false := isBlank_eq_false (not_mem_closers_of_digit hd)
  have hword : wordOf? d = none := by
    rw [wordOf?, if_neg (hne _ rfl), if_neg (hne _ rfl), if_neg (hne _ rfl)]
  rw [List.cons_append] at hskip ⊢
  rw [skipValue, skipBlanks_append hw hblank]
  split
  · next heq => cases heq
  · next heq => exact absurd (List.cons.inj heq).1 (hne _ rfl)
  · next heq => exact absurd (List.cons.inj heq).1 (hne _ rfl)
  · next heq => exact absurd (List.cons.inj heq).1 (hne _ rfl)
  · next heq => exact absurd (List.cons.inj heq).1 (hne _ rfl)
  · next heq =>
    obtain ⟨rfl, rfl⟩ := List.cons.inj heq
    simp only [hword, hd, if_true, hskip]

theorem passed_list {vs : List Text} {t : Text} (row : Row Eq vs t) (begins : ∀ v ∈ vs, Begins v)
    (h : ∀ v ∈ vs, Passed v) : Passed ('[' :: (t ++ [']'])) := by
  refine .of_step fun n hn w rest hw _ => ?_
  simp only [List.length_cons, List.length_append] at hn
  rw [List.cons_append, List.append_assoc, List.singleton_append, skipValue,
    skipBlanks_append hw rfl]
  refine skip_row (by decide) (fun n first w hw => ?_) row (fun v hv => ?_) n true [] (by omega)
    .first fun _ => rfl
  · simp only [skipItems, skipBlanks_append hw (c := ']') rfl]
  · rintro _ rfl n hn first pre w u lead hw hu
    exact skipItems_step (begins v hv) (h v hv) hn lead hw hu

theorem passed_object {fs : List (Text × Text)} {t : Text} (row : Row Pair fs t)
    (keys : ∀ f ∈ fs, IsString f.1) (h : ∀ f ∈ fs, Passed f.2) :
    Passed ('\x7b' :: (t ++ ['\x7d'])) := by
  refine .of_step fun n hn w rest hw _ => ?_
  simp only [List.length_cons, List.length_append] at hn
  rw [List.cons_append, List.append_assoc, List.singleton_append, skipValue,
    skipBlanks_append hw rfl]
  refine skip_row (by decide) (fun n first w hw => ?_) row (fun f hf => ?_) n true [] (by omega)
    .first fun _ => rfl
  · simp only [skipFields, skipBlanks_append hw (c := '\x7d') rfl]
  · intro v hv n hn first pre w u lead hw hu
    exact skipFields_step (keys f hf) (h f hf) hv hn lead hw hu

theorem passed_value {v : Text} (h : Value v) : Passed v := by
  induction h with
  | null | true | false =>
    refine .of_step fun n _ w rest hw _ => ?_
    rw [List.cons_append, skipValue, skipBlanks_append hw rfl]
    rfl
  | positive h => exact passed_numeral h
  | negative h =>
    refine .of_step fun n _ w rest hw hrest => ?_
    rw [List.cons_append, skipValue, skipBlanks_append hw rfl]
    exact Number.skip_numeral h hrest
  | string h =>
    obtain ⟨u, hu, rfl⟩ := h
    refine .of_step fun n _ w rest hw _ => ?_
    rw [List.cons_append, List.append_assoc, skipValue, skipBlanks_append hw rfl]
    exact skipCharacters_stringText hu rest
  | list row values ih => exact passed_list row (fun v hv => value_begins (values v hv)) ih
  | object row keys _ ih => exact passed_object row keys ih

/-- **Any value is passed over, whatever stands around it.** -/
theorem skips_value {v : Text} (h : Value v) : Skips v := by
  intro w rest hw hrest
  refine passed_value h _ ?_ w rest hw hrest
  simp only [List.length_append]
  omega

end StorySuite.Json
