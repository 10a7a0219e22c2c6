import Mathlib.Data.List.Basic
import StorySuite.Glob.Alternatives

/-!
# What a text with groups stands for

`Alternation` is such a text as it is meant: characters and groups, which are nested to any depth.
It has a text and the texts that it denotes, and neither is told from the other.

* `Alternation.text`, `Alternation.texts`   how it is written, and what it denotes, in order;
* `Branches.parts?_text`                    the parts of a group are found up to its end;
* `Alternation.expand_around`               spelling out groups, wherever the text stands;
* `expand_text`                             **a text stands for what it denotes**.
-/

namespace StorySuite.Glob

inductive Bracket where
  /-- `{a,b}` -/
  | brace
  /-- `@(a|b)` -/
  | round

namespace Bracket

def opening : Bracket → Text
  | brace => ['{']
  | round => ['@', '(']

def closing : Bracket → Char
  | brace => '}'
  | round => ')'

def separator : Bracket → Char
  | brace => ','
  | round => '|'

/-- whether a character is one of those that groups open and close with -/
def has (c : Char) : Bool := c = '{' || c = '}' || c = '(' || c = ')'

end Bracket

mutual

/-- **A text with groups** that stands right inside of brackets `b`, or in no group at all.  A
separator of these brackets would be the end of it. -/
inductive Alternation : Option Bracket → Type where
  | nil {b : Option Bracket} : Alternation b
  | char {b : Option Bracket} (c : Char) (hc : Bracket.has c = false)
      (hs : ∀ k, b = some k → c ≠ k.separator) (rest : Alternation b) : Alternation b
  | group {b : Option Bracket} (k : Bracket) (parts : Branches k) (rest : Alternation b) :
      Alternation b

/-- the parts of a group, one or more -/
inductive Branches : Bracket → Type where
  | last {k : Bracket} (p : Alternation (some k)) : Branches k
  | more {k : Bracket} (p : Alternation (some k)) (ps : Branches k) : Branches k

end

mutual

/-- how it is written -/
def Alternation.text {b : Option Bracket} : Alternation b → Text
  | .nil => []
  | .char c _ _ rest => c :: rest.text
  | .group k ps rest => k.opening ++ (ps.text ++ k.closing :: rest.text)

def Branches.text {k : Bracket} : Branches k → Text
  | .last p => p.text
  | .more p ps => p.text ++ k.separator :: ps.text

end

mutual

/-- **The texts that it denotes**: the choices on the left change last. -/
def Alternation.texts {b : Option Bracket} : Alternation b → List Text
  | .nil => [[]]
  | .char c _ _ rest => rest.texts.map (c :: ·)
  | .group _ ps rest => ps.texts.flatMap fun s => rest.texts.map (s ++ ·)

def Branches.texts {k : Bracket} : Branches k → List Text
  | .last p => p.texts
  | .more p ps => p.texts ++ ps.texts

end

/-- the parts as they are written -/
def Branches.items {k : Bracket} : Branches k → List Text
  | .last p => [p.text]
  | .more p ps => p.text :: ps.items

/-! ## the parts of a group -/

namespace Group

/-- a text in front of the first part -/
def ahead (w : Text) (r : List Text × Text) : List Text × Text := w.foldr push r

theorem ahead_append (v w : Text) (r : List Text × Text) :
    ahead (v ++ w) r = ahead v (ahead w r) := List.foldr_append

theorem ahead_cons (w f : Text) (fs : List Text) (t : Text) :
    ahead w (f :: fs, t) = ((w ++ f) :: fs, t) := by
  induction w with
  | nil => rfl
  | cons c w ih =>
    show push c (ahead w (f :: fs, t)) = _
    rw [ih]
    rfl

theorem map_push (c : Char) (w : Text) (o : Option (List Text × Text)) :
    (o.map (ahead w)).map (push c) = o.map (ahead (c :: w)) := by
  cases o <;> rfl

theorem map_ahead (v w : Text) (o : Option (List Text × Text)) :
    (o.map (ahead w)).map (ahead v) = o.map (ahead (v ++ w)) := by
  cases o with
  | none => rfl
  | some r => exact congrArg some (ahead_append v w r).symm

variable {k : Bracket} {d : Nat} {t : Text}

theorem parts?_char {c : Char} (hc : Bracket.has c = false) (hs : d = 0 → c ≠ k.separator) :
    parts? k.separator d (c :: t) = (parts? k.separator d t).map (push c) := by
  simp only [Bracket.has, Bool.or_eq_false_iff, decide_eq_false_iff_not] at hc
  obtain ⟨⟨⟨h1, h2⟩, h3⟩, h4⟩ := hc
  have hsep : ¬(c = k.separator && decide (d = 0)) = true := by
    intro h
    rw [Bool.and_eq_true, decide_eq_true_eq, decide_eq_true_eq] at h
    exact hs h.2 h.1
  rw [parts?.eq_def]
  show (if (c = '{' || c = '(') = true then _ else _ : Option (List Text × Text)) = _
  rw [if_neg (by simp [h1, h3]), if_neg (by simp [h2, h4]), if_neg hsep]

theorem parts?_opening (b : Bracket) :
    parts? k.separator d (b.opening ++ t) =
      (parts? k.separator (d + 1) t).map (ahead b.opening) := by
  cases b with
  | brace => rfl
  | round =>
    -- the character in front of the bracket is one like any other
    have hat : parts? k.separator d ('@' :: '(' :: t) =
        (parts? k.separator d ('(' :: t)).map (push '@') := by
      refine parts?_char rfl fun _ => ?_
      cases k <;> decide
    show parts? k.separator d ('@' :: '(' :: t) = _
    rw [hat]
    exact map_push '@' ['('] _

theorem parts?_closing (b : Bracket) :
    parts? k.separator (d + 1) (b.closing :: t) =
      (parts? k.separator d t).map (push b.closing) := by
  cases b <;> rfl

theorem parts?_end (b : Bracket) : parts? k.separator 0 (b.closing :: t) = some ([[]], t) := by
  cases b <;> rfl

theorem parts?_separator :
    parts? k.separator 0 (k.separator :: t) =
      (parts? k.separator 0 t).map fun r => ([] :: r.1, r.2) := by
  cases k <;> rfl

end Group

open StorySuite.Glob.Group

mutual

/-- **A text with groups is read over as a whole**, inside of a group that is open further out or
as a part of this one. -/
theorem Alternation.parts?_text {b : Option Bracket} (p : Alternation b) (k : Bracket) (d : Nat)
    (h : d = 0 → b = some k) (t : Text) :
    parts? k.separator d (p.text ++ t) = (parts? k.separator d t).map (ahead p.text) := by
  match p with
  | .nil =>
    show parts? k.separator d t = (parts? k.separator d t).map id
    rw [Option.map_id_fun, id]
  | .char c hc hs rest =>
    show parts? k.separator d (c :: (rest.text ++ t)) = _
    rw [parts?_char hc fun hd => hs k (h hd), rest.parts?_text k d h t]
    exact map_push c rest.text _
  | .group k' ps rest =>
    have hclose : (k'.closing :: rest.text) ++ t = k'.closing :: (rest.text ++ t) := rfl
    show parts? k.separator d ((k'.opening ++ (ps.text ++ k'.closing :: rest.text)) ++ t) = _
    rw [List.append_assoc, parts?_opening, List.append_assoc, hclose, ps.parts?_text k d _,
      parts?_closing, rest.parts?_text k d h t, map_push, map_ahead, map_ahead,
      List.append_assoc]
    rfl

theorem Branches.parts?_text {k' : Bracket} (ps : Branches k') (k : Bracket) (d : Nat) (t : Text) :
    parts? k.separator (d + 1) (ps.text ++ t) =
      (parts? k.separator (d + 1) t).map (ahead ps.text) := by
  match ps with
  | .last p => exact p.parts?_text k (d + 1) (fun h => absurd h (Nat.succ_ne_zero d)) t
  | .more p ps =>
    have hsep : parts? k.separator (d + 1) (k'.separator :: (ps.text ++ t)) =
        (parts? k.separator (d + 1) (ps.text ++ t)).map (push k'.separator) := by
      refine parts?_char ?_ fun h => absurd h (Nat.succ_ne_zero d)
      cases k' <;> rfl
    show parts? k.separator (d + 1) ((p.text ++ k'.separator :: ps.text) ++ t) = _
    rw [List.append_assoc, p.parts?_text k (d + 1) (fun h => absurd h (Nat.succ_ne_zero d)),
      List.cons_append, hsep, ps.parts?_text k d t, map_push, map_ahead]
    rfl

end

/-- the parts of a group up to its end -/
theorem Branches.parts?_items {k : Bracket} (ps : Branches k) (t : Text) :
    parts? k.separator 0 (ps.text ++ k.closing :: t) = some (ps.items, t) := by
  match ps with
  | .last p =>
    show parts? k.separator 0 (p.text ++ k.closing :: t) = _
    rw [p.parts?_text k 0 (fun _ => rfl), parts?_end, Option.map_some, ahead_cons, List.append_nil]
    rfl
  | .more p ps =>
    show parts? k.separator 0 ((p.text ++ k.separator :: ps.text) ++ k.closing :: t) = _
    rw [List.append_assoc, p.parts?_text k 0 (fun _ => rfl), List.cons_append, parts?_separator,
      ps.parts?_items t, Option.map_some, Option.map_some, ahead_cons, List.append_nil]
    rfl

/-! ## the first group -/

namespace Group

/-- no character of a text belongs to a bracket -/
def Bare (t : Text) : Prop := ∀ c ∈ t, Bracket.has c = false

theorem Bare.append {s t : Text} (hs : Bare s) (ht : Bare t) : Bare (s ++ t) := by
  intro c hc
  rcases List.mem_append.mp hc with h | h
  · exact hs c h
  · exact ht c h

theorem ne_of_has {c : Char} (h : Bracket.has c = false) : c ≠ '{' ∧ c ≠ '(' := by
  constructor
  · rintro rfl
    cases h
  · rintro rfl
    cases h

theorem opening?_cons {c : Char} {t : Text} (h : c ≠ '{') (ht : t.head? ≠ some '(') :
    opening? (c :: t) = (opening? t).map fun o => (c :: o.1, o.2) := by
  rw [opening?]
  · exact h
  · intro u _ hu
    rw [hu] at ht
    exact ht rfl

theorem opening?_bare {t : Text} (h : Bare t) : opening? t = none := by
  induction t with
  | nil => rfl
  | cons c t ih =>
    have hhead : t.head? ≠ some '(' := by
      intro h'
      exact (ne_of_has (h '(' (List.mem_cons_of_mem _ (List.mem_of_head? h')))).2 rfl
    rw [opening?_cons (ne_of_has (h c List.mem_cons_self)).1 hhead,
      ih fun x hx => h x (List.mem_cons_of_mem _ hx)]
    rfl

theorem opening?_before {s : Text} (h : Bare s) (k : Bracket) (t : Text) :
    opening? (s ++ (k.opening ++ t)) = some (s, k.separator, t) := by
  induction s with
  | nil => cases k <;> rfl
  | cons c s ih =>
    -- an opening bracket stands behind another character of its group at most
    have hhead : (s ++ (k.opening ++ t)).head? ≠ some '(' := by
      cases s with
      | nil => cases k <;> simp [Bracket.opening]
      | cons x s =>
        intro h'
        have hx : x = '(' := Option.some.inj h'
        exact (ne_of_has (h x (by simp))).2 hx
    rw [List.cons_append, opening?_cons (ne_of_has (h c List.mem_cons_self)).1 hhead,
      ih fun x hx => h x (List.mem_cons_of_mem _ hx)]
    rfl

theorem first?_group {s : Text} (h : Bare s) {k : Bracket} (ps : Branches k) (t : Text) :
    first? (s ++ (k.opening ++ (ps.text ++ k.closing :: t))) = some ⟨s, ps.items, t⟩ := by
  rw [first?, opening?_before h]
  show (parts? k.separator 0 (ps.text ++ k.closing :: t)).map _ = _
  rw [ps.parts?_items]
  rfl

end Group

/-! ## spelling groups out -/

theorem expand_of_none {t : Text} (h : first? t = none) : expand t = [t] := by
  rw [expand]
  split
  · rfl
  · next g hg =>
    rw [h] at hg
    cases hg

theorem expand_of_some {t : Text} {g : Group} (h : first? t = some g) :
    expand t = g.parts.flatMap fun p => expand (g.choose p) := by
  rw [expand]
  split
  · next hn =>
    rw [h] at hn
    cases hn
  · next g' hg =>
    obtain rfl : g = g' := Option.some.inj (h.symm.trans hg)
    show g.parts.attach.flatMap (fun p => expand (g.choose p.1)) = _
    simp only [List.flatMap_subtype, List.unattach_attach]

theorem expand_bare {t : Text} (h : Bare t) : expand t = [t] := by
  refine expand_of_none ?_
  rw [first?, opening?_bare h]

mutual

theorem Alternation.bare_texts {b : Option Bracket} (p : Alternation b) :
    ∀ s ∈ p.texts, Bare s := by
  intro s hs
  match p with
  | .nil =>
    rw [List.mem_singleton.mp hs]
    intro c hc
    cases hc
  | .char c hc _ rest =>
    obtain ⟨u, hu, rfl⟩ := List.mem_map.mp hs
    intro x hx
    rcases List.mem_cons.mp hx with rfl | hx
    · exact hc
    · exact rest.bare_texts u hu x hx
  | .group k ps rest =>
    obtain ⟨u, hu, hs⟩ := List.mem_flatMap.mp hs
    obtain ⟨v, hv, rfl⟩ := List.mem_map.mp hs
    exact (ps.bare_texts u hu).append (rest.bare_texts v hv)

theorem Branches.bare_texts {k : Bracket} (ps : Branches k) : ∀ s ∈ ps.texts, Bare s := by
  intro s hs
  match ps with
  | .last p => exact p.bare_texts s hs
  | .more p ps =>
    rcases List.mem_append.mp hs with h | h
    · exact p.bare_texts s h
    · exact ps.bare_texts s h

end

mutual

/-- **Spelling out groups** is choosing among the texts denoted, whatever stands behind and as long
as nothing in front opens a group.  The text behind it may hold groups of its own, so it is kept
general: a part that is put in the place of its group stands in front of what followed it. -/
theorem Alternation.expand_around {b : Option Bracket} (p : Alternation b) {before : Text}
    (h : Bare before) (t : Text) :
    expand (before ++ (p.text ++ t)) = p.texts.flatMap fun s => expand (before ++ (s ++ t)) := by
  match p with
  | .nil => exact (List.flatMap_singleton (fun s => expand (before ++ (s ++ t))) []).symm
  | .char c hc _ rest =>
    have hbefore : Bare (before ++ [c]) := by
      refine h.append fun x hx => ?_
      rw [List.mem_singleton.mp hx]
      exact hc
    have hmove : ∀ u : Text, before ++ c :: u = before ++ [c] ++ u := by
      intro u
      rw [List.append_assoc]
      rfl
    show expand (before ++ c :: (rest.text ++ t)) =
      (rest.texts.map (c :: ·)).flatMap fun s => expand (before ++ (s ++ t))
    rw [hmove, rest.expand_around hbefore t, List.flatMap_map]
    exact List.flatMap_congr fun s _ => congrArg expand (hmove (s ++ t)).symm
  | .group k ps rest =>
    have hgroup : before ++ ((Alternation.group k ps rest : Alternation b).text ++ t) =
        before ++ (k.opening ++ (ps.text ++ k.closing :: (rest.text ++ t))) := by
      show before ++ ((k.opening ++ (ps.text ++ k.closing :: rest.text)) ++ t) = _
      simp only [List.append_assoc, List.cons_append]
    calc expand (before ++ ((Alternation.group k ps rest : Alternation b).text ++ t))
        = ps.items.flatMap fun q => expand (before ++ (q ++ (rest.text ++ t))) := by
          rw [hgroup, expand_of_some (first?_group h ps _)]
          refine List.flatMap_congr fun q _ => ?_
          show expand (before ++ q ++ (rest.text ++ t)) = _
          rw [List.append_assoc]
      _ = ps.texts.flatMap fun s => expand (before ++ (s ++ (rest.text ++ t))) :=
          ps.expand_items h _
      _ = ps.texts.flatMap fun s => (rest.texts.map (s ++ ·)).flatMap fun u =>
            expand (before ++ (u ++ t)) := by
          refine List.flatMap_congr fun s hs => ?_
          rw [← List.append_assoc, rest.expand_around (h.append (ps.bare_texts s hs)) t,
            List.flatMap_map]
          refine List.flatMap_congr fun u _ => ?_
          rw [List.append_assoc, List.append_assoc]
      _ = _ := List.flatMap_assoc.symm

theorem Branches.expand_items {k : Bracket} (ps : Branches k) {before : Text} (h : Bare before)
    (t : Text) :
    ps.items.flatMap (fun q => expand (before ++ (q ++ t))) =
      ps.texts.flatMap fun s => expand (before ++ (s ++ t)) := by
  match ps with
  | .last p =>
    show [p.text].flatMap _ = p.texts.flatMap _
    rw [List.flatMap_singleton, p.expand_around h t]
  | .more p ps =>
    show (p.text :: ps.items).flatMap _ = (p.texts ++ ps.texts).flatMap _
    rw [List.flatMap_cons, List.flatMap_append, p.expand_around h t, ps.expand_items h t]

end

/-- **A text with groups stands for the texts that it denotes**, for each as often as it denotes it
and in the same order. -/
theorem expand_text (p : Alternation none) : expand p.text = p.texts := by
  have hnil : Bare [] := by
    intro c hc
    cases hc
  have h := p.expand_around hnil []
  rw [List.nil_append, List.append_nil] at h
  rw [h]
  calc p.texts.flatMap (fun s => expand ([] ++ (s ++ [])))
      = p.texts.flatMap fun s => [s] := by
        refine List.flatMap_congr fun s hs => ?_
        rw [List.nil_append, List.append_nil]
        exact expand_bare (p.bare_texts s hs)
    _ = p.texts := List.flatMap_singleton' p.texts

example :
    let p : Alternation none := .group .brace
      (.more (.char 'a' rfl (by rintro _ ⟨⟩; decide) .nil) (.last .nil)) (.char 'b' rfl nofun .nil)
    p.text = "{a,}b".toList ∧ p.texts = ["ab".toList, "b".toList] := ⟨rfl, rfl⟩

end StorySuite.Glob
