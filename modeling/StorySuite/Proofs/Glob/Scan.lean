import StorySuite.Glob.Scan
import StorySuite.Proofs.Text.Bytes
import StorySuite.Proofs.Text.Cut
import StorySuite.Proofs.Glob.Alternatives

/-!
# A scan for groups has no trouble

Brackets and separators are small characters, so a scan over bytes stops at whole characters, and
what it cuts out are the parts that are read character by character.  Of the text that a part is put
in, it takes away the group with its brackets, which are more than the part.

* `Group.exists_of_first?`     what a group takes up, and that it has parts, all of them smaller;
* `Scan.opening?_bytes`, `Scan.closing?_bytes`   the scan, read by characters;
* `Scan.firstGroup_eq`         **the first group by its bytes** is the first group;
* `expand_untroubled`          **no text makes trouble**: groups are spelled out, in ever shorter
                               texts, and something always comes of it.
-/

namespace StorySuite.Glob

/-! ## groups take up room -/

namespace Group

theorem exists_of_opening? {t before inner : Text} {s : Char}
    (h : opening? t = some (before, s, inner)) :
    ∃ k : Bracket, s = k.separator ∧ t = before ++ (k.opening ++ inner) := by
  induction t using opening?.induct generalizing before with
  | case1 => cases h
  | case2 t =>
    cases h
    exact ⟨.brace, rfl, rfl⟩
  | case3 t =>
    cases h
    exact ⟨.round, rfl, rfl⟩
  | case4 c t h1 h2 ih =>
    rw [opening?] at h
    · obtain ⟨⟨b, s', i⟩, ho, he⟩ := Option.map_eq_some_iff.mp h
      cases he
      obtain ⟨k, hs, rfl⟩ := ih ho
      exact ⟨k, hs, rfl⟩
    all_goals assumption

theorem size_push {c : Char} {r : List Text × Text} {n : Nat} (hr : r.1 ≠ [])
    (h : ∀ p ∈ r.1, p.size < n) : ∀ p ∈ (push c r).1, p.size < c.utf8Size + n := by
  obtain ⟨_ | ⟨q, qs⟩, t⟩ := r
  · exact absurd rfl hr
  · intro p hp
    rcases List.mem_cons.mp hp with rfl | hp
    · have := h q List.mem_cons_self
      rw [Text.size_cons]
      omega
    · have := h p (List.mem_cons_of_mem _ hp)
      omega

/-- the inside of a group with the bracket that ends it, and what it has for parts -/
theorem exists_of_parts? {s : Char} {d : Nat} {t : Text} {r : List Text × Text}
    (h : parts? s d t = some r) :
    r.1 ≠ [] ∧ ∃ w, t = w ++ r.2 ∧ ∀ p ∈ r.1, p.size < w.size := by
  induction t generalizing d r with
  | nil => cases h
  | cons c t ih =>
    have hc := Char.utf8Size_pos c
    have pushed : ∀ d', (parts? s d' t).map (push c) = some r →
        r.1 ≠ [] ∧ ∃ w : Text, c :: t = w ++ r.2 ∧ ∀ p ∈ r.1, p.size < w.size := by
      intro d' h'
      obtain ⟨r', hr', rfl⟩ := Option.map_eq_some_iff.mp h'
      obtain ⟨hne, w, rfl, hp⟩ := ih hr'
      refine ⟨?_, c :: w, by rw [push_snd]; rfl, size_push hne hp⟩
      obtain ⟨_ | ⟨q, qs⟩, u⟩ := r' <;> exact List.cons_ne_nil _ _
    unfold parts? at h
    split at h
    · exact pushed _ h
    · split at h
      · cases d with
        | zero =>
          cases h
          refine ⟨List.cons_ne_nil _ _, [c], rfl, fun p hp => ?_⟩
          rw [List.mem_singleton.mp hp]
          exact Text.size_pos
        | succ d => exact pushed _ h
      · split at h
        · obtain ⟨r', hr', rfl⟩ := Option.map_eq_some_iff.mp h
          obtain ⟨-, w, rfl, hp⟩ := ih hr'
          refine ⟨List.cons_ne_nil _ _, c :: w, rfl, fun p hmem => ?_⟩
          rw [Text.size_cons]
          rcases List.mem_cons.mp hmem with rfl | hmem
          · exact Nat.add_pos_left hc _
          · exact Nat.lt_add_left _ (hp p hmem)
        · exact pushed _ h

/-- **A group takes up more room than any of its parts**, and it has parts. -/
theorem exists_of_first? {t : Text} {g : Group} (h : first? t = some g) :
    g.parts ≠ [] ∧ ∃ w, t = g.before ++ (w ++ g.after) ∧ ∀ p ∈ g.parts, p.size < w.size := by
  unfold first? at h
  split at h
  · cases h
  · next before s inner ho =>
    obtain ⟨k, -, rfl⟩ := exists_of_opening? ho
    obtain ⟨r, hr, rfl⟩ := Option.map_eq_some_iff.mp h
    obtain ⟨hne, w, rfl, hp⟩ := exists_of_parts? hr
    refine ⟨hne, k.opening ++ w, ?_, fun p hmem => ?_⟩
    · rw [List.append_assoc]
    · rw [Text.size_append]
      exact Nat.lt_add_left _ (hp p hmem)

/-- with one part in the place of its first group a text has fewer bytes -/
theorem size_choose {t : Text} {g : Group} (h : first? t = some g) {p : Text}
    (hp : p ∈ g.parts) : (g.choose p).size < t.size := by
  obtain ⟨-, w, ht, hw⟩ := exists_of_first? h
  have := hw p hp
  rw [ht, choose]
  simp only [Text.size_append]
  omega

end Group

/-! ## passing over bytes -/

namespace Scan

open StorySuite.Glob.Group

/-- the brackets and separators are small characters -/
theorem separator_small (k : Bracket) : k.separator.toNat < 128 := by
  cases k <;> decide

theorem opens_small {c : Char} (h : c.toNat < 128) : opens c.toUInt8 = (c = '{' || c = '(') := by
  unfold opens
  simp only [toUInt8_inj h (d := '{') (by decide), toUInt8_inj h (d := '(') (by decide)]

theorem closes_small {c : Char} (h : c.toNat < 128) : closes c.toUInt8 = (c = '\x7d' || c = ')') := by
  unfold closes
  simp only [toUInt8_inj h (d := '\x7d') (by decide), toUInt8_inj h (d := ')') (by decide)]

theorem ne_of_large {b : UInt8} (hb : 128 ≤ b.toNat) {c : Char} (hc : c.toNat < 128) :
    b ≠ c.toUInt8 := by
  rintro rfl
  rw [toNat_toUInt8 hc] at hb
  omega

theorem opening?_large {bs : List UInt8} (h : ∀ b ∈ bs, 128 ≤ b.toNat) (i : Nat)
    (cs : List UInt8) : opening? i (bs ++ cs) = opening? (i + bs.length) cs := by
  induction bs generalizing i with
  | nil => rfl
  | cons b bs ih =>
    have hb := h b List.mem_cons_self
    rw [List.cons_append, opening?, if_neg (ne_of_large hb (by decide)),
      decide_eq_false (ne_of_large hb (by decide)), Bool.false_and, if_neg Bool.false_ne_true,
      ih (fun b hb => h b (List.mem_cons_of_mem _ hb)), List.length_cons]
    congr 1
    omega

/-- a character that is neither a bracket nor a separator, nor any small one -/
theorem closing?_large {t : Text} {k : Bracket} {bs : List UInt8} (h : ∀ b ∈ bs, 128 ≤ b.toNat)
    (i d start : Nat) (parts : List Text) (cs : List UInt8) :
    closing? t k.separator.toUInt8 i d start parts (bs ++ cs) =
      closing? t k.separator.toUInt8 (i + bs.length) d start parts cs := by
  induction bs generalizing i with
  | nil => rfl
  | cons b bs ih =>
    have hb := h b List.mem_cons_self
    have hopen : opens b = false := by
      rw [opens, decide_eq_false (ne_of_large hb (by decide)),
        decide_eq_false (ne_of_large hb (by decide))]
      rfl
    have hclose : closes b = false := by
      rw [closes, decide_eq_false (ne_of_large hb (by decide)),
        decide_eq_false (ne_of_large hb (by decide))]
      rfl
    have hsep : b ≠ k.separator.toUInt8 := ne_of_large hb (separator_small k)
    rw [List.cons_append, closing?, hopen, hclose, decide_eq_false hsep]
    simp only [Bool.false_and, Bool.false_eq_true, if_false]
    rw [ih (fun b hb => h b (List.mem_cons_of_mem _ hb)), List.length_cons]
    congr 1
    omega

/-- a text whose bytes begin with a small one begins with its character -/
theorem exists_of_head? {t : Text} {d : Char} (hd : d.toNat < 128)
    (h : t.bytes.head? = some d.toUInt8) : ∃ u, t = d :: u := by
  cases t with
  | nil => cases h
  | cons c t =>
    by_cases hc : c.toNat < 128
    · rw [Text.bytes_small hc] at h
      exact ⟨t, by rw [(toUInt8_inj hc hd).mp (Option.some.inj h)]⟩
    · rw [Text.bytes_cons] at h
      have hmem := List.mem_of_head? h
      cases hbs : String.utf8EncodeChar c with
      | nil =>
        have hlen := String.length_utf8EncodeChar c
        have hpos := Char.utf8Size_pos c
        rw [hbs, List.length_nil] at hlen
        omega
      | cons b bs =>
        rw [hbs, List.cons_append, List.head?_cons] at h
        have hb := le_of_mem_utf8EncodeChar (Nat.le_of_not_lt hc)
          (b := b) (by rw [hbs]; exact List.mem_cons_self)
        exact absurd (Option.some.inj h) (ne_of_large hb hd)

/-- **Where the first group opens**, read by characters: its inside ends with the text. -/
theorem opening?_bytes (t : Text) (i : Nat) :
    opening? i t.bytes = (Group.opening? t).map fun o =>
      (i + o.1.size, i + (t.size - o.2.2.size), o.2.1.toUInt8) := by
  induction t using Group.opening?.induct generalizing i with
  | case1 => rfl
  | case2 t =>
    rw [Text.bytes_small (by decide)]
    show some (i, i + 1, ','.toUInt8) = some (i + 0, i + (1 + Text.size t - Text.size t), ','.toUInt8)
    rw [Nat.add_sub_cancel]
    rfl
  | case3 t =>
    rw [Text.bytes_small (by decide), Text.bytes_small (by decide)]
    show some (i, i + 2, '|'.toUInt8) =
      some (i + 0, i + (1 + (1 + Text.size t) - Text.size t), '|'.toUInt8)
    rw [← Nat.add_assoc, Nat.add_sub_cancel]
    rfl
  | case4 c t h1 h2 ih =>
    have hstep : opening? i (Text.bytes (c :: t)) = opening? (i + c.utf8Size) (Text.bytes t) := by
      by_cases hc : c.toNat < 128
      · have hbrace : c.toUInt8 ≠ '{'.toUInt8 := fun h => h1 ((toUInt8_inj hc (by decide)).mp h)
        have hround : (c.toUInt8 = '@'.toUInt8 && (Text.bytes t).head? = some '('.toUInt8) = false := by
          rw [Bool.and_eq_false_iff, decide_eq_false_iff_not, decide_eq_false_iff_not]
          refine Classical.not_and_iff_not_or_not.mp ?_
          rintro ⟨hat, hopen⟩
          obtain ⟨u, rfl⟩ := exists_of_head? (d := '(') (by decide) hopen
          exact h2 u ((toUInt8_inj hc (by decide)).mp hat) rfl
        rw [Text.bytes_small hc, opening?, if_neg hbrace, hround, if_neg Bool.false_ne_true,
          utf8Size_small hc]
      · have hlarge : ∀ b ∈ String.utf8EncodeChar c, 128 ≤ b.toNat := fun b hb =>
          le_of_mem_utf8EncodeChar (Nat.le_of_not_lt hc) hb
        rw [Text.bytes_cons, opening?_large hlarge, String.length_utf8EncodeChar]
    rw [hstep, ih, Group.opening?, Option.map_map]
    · refine Option.map_congr fun o ho => ?_
      obtain ⟨before, s, inner⟩ := o
      obtain ⟨k, -, rfl⟩ := exists_of_opening? ho
      show _ = (i + (c.utf8Size + before.size), i + (c.utf8Size + Text.size _ - inner.size), s.toUInt8)
      rw [Text.size_append, Text.size_append]
      refine Prod.ext (Nat.add_assoc _ _ _) (Prod.ext ?_ rfl)
      show i + c.utf8Size + (before.size + (k.opening.size + inner.size) - inner.size) =
        i + (c.utf8Size + (before.size + (k.opening.size + inner.size)) - inner.size)
      omega
    all_goals assumption

theorem cut_append (u w v : Text) : cut (u ++ (w ++ v)) u.size (u.size + w.size) = .ok w := by
  rw [cut, Text.slice?_append]

/-- a character that is no bracket and separates no parts -/
theorem closing?_char {t : Text} {k : Bracket} {c : Char} (hc : Bracket.has c = false) {d : Nat}
    (hs : d = 0 → c ≠ k.separator) (i start : Nat) (parts : List Text) (u : Text) :
    closing? t k.separator.toUInt8 i d start parts (Text.bytes (c :: u)) =
      closing? t k.separator.toUInt8 (i + c.utf8Size) d start parts u.bytes := by
  by_cases hsmall : c.toNat < 128
  · simp only [Bracket.has, Bool.or_eq_false_iff, decide_eq_false_iff_not] at hc
    obtain ⟨⟨⟨h1, h2⟩, h3⟩, h4⟩ := hc
    have hopen : opens c.toUInt8 = false := by
      rw [opens_small hsmall, decide_eq_false h1, decide_eq_false h3]
      rfl
    have hclose : closes c.toUInt8 = false := by
      rw [closes_small hsmall, decide_eq_false h2, decide_eq_false h4]
      rfl
    have hsep : (c.toUInt8 = k.separator.toUInt8 && d = 0) = false := by
      rw [Bool.and_eq_false_iff, decide_eq_false_iff_not, decide_eq_false_iff_not,
        toUInt8_inj hsmall (separator_small k)]
      exact (Decidable.em (d = 0)).elim (fun h => Or.inl (hs h)) Or.inr
    rw [Text.bytes_small hsmall, closing?, hopen, hclose, hsep, utf8Size_small hsmall]
    simp only [Bool.false_and, Bool.false_eq_true, if_false]
  · rw [Text.bytes_cons, closing?_large fun b hb =>
      le_of_mem_utf8EncodeChar (Nat.le_of_not_lt hsmall) hb, String.length_utf8EncodeChar]

/-! ## the parts of a group

Of a group in `t` the scan has passed over `parts`, the latest first, and over `part` of the current
one.  What it comes to depends on the rest of the group as it is read by characters. -/

section
variable {t : Text} (k : Bracket) (i start : Nat) (part : Text) (parts : List Text)

/-- where the scan ends, and the parts that it comes to -/
def found (t part : Text) (parts : List Text) (r : List Text × Text) : Nat × List Text :=
  (t.size - (r.2.size + 1), parts.reverse ++ (ahead part r).1)

theorem found_push (c : Char) (r : List Text × Text) :
    found t part parts (push c r) = found t (part ++ [c]) parts r := by
  rw [found, found, push_snd, ahead_append]
  rfl

theorem found_separator (r : List Text × Text) :
    found t part parts ([] :: r.1, r.2) = found t [] (part :: parts) r := by
  rw [found, found, ahead_cons, List.append_nil, List.reverse_cons, List.append_assoc]
  rfl

theorem found_end (before inner : Text) (b : Bracket) :
    found (before ++ (part ++ b.closing :: inner)) part parts ([[]], inner) =
      (before.size + part.size, (part :: parts).reverse) := by
  have hone : b.closing.utf8Size = 1 := by cases b <;> rfl
  rw [found, ahead_cons, List.append_nil, List.reverse_cons, Text.size_append, Text.size_append,
    Text.size_cons, hone]
  refine Prod.ext ?_ rfl
  show before.size + (part.size + (1 + inner.size)) - (inner.size + 1) = before.size + part.size
  omega

theorem closing?_opening {c : Char} (hc : c = '{' ∨ c = '(') (d : Nat) (u : Text) :
    closing? t k.separator.toUInt8 i d start parts (Text.bytes (c :: u)) =
      closing? t k.separator.toUInt8 (i + c.utf8Size) (d + 1) start parts u.bytes := by
  rcases hc with rfl | rfl <;> rfl

theorem closing?_closing (b : Bracket) (d : Nat) (u : Text) :
    closing? t k.separator.toUInt8 i (d + 1) start parts (Text.bytes (b.closing :: u)) =
      closing? t k.separator.toUInt8 (i + b.closing.utf8Size) d start parts u.bytes := by
  cases b <;> rfl

theorem closing?_end (b : Bracket) (u : Text) :
    closing? t k.separator.toUInt8 i 0 start parts (Text.bytes (b.closing :: u)) =
      (cut t start i).bind fun p => .ok (some (i, (p :: parts).reverse)) := by
  cases b <;> rfl

theorem closing?_separator (u : Text) :
    closing? t k.separator.toUInt8 i 0 start parts (Text.bytes (k.separator :: u)) =
      (cut t start i).bind fun p =>
        closing? t k.separator.toUInt8 (i + 1) 0 (i + 1) (p :: parts) u.bytes := by
  cases k <;> rfl

/-- a character that groups open and close with -/
theorem exists_of_has {c : Char} (h : Bracket.has c = true) :
    (c = '{' ∨ c = '(') ∨ ∃ b : Bracket, c = b.closing := by
  simp only [Bracket.has, Bool.or_eq_true, decide_eq_true_eq] at h
  rcases h with ((rfl | rfl) | rfl) | rfl
  · exact .inl (.inl rfl)
  · exact .inr ⟨.brace, rfl⟩
  · exact .inl (.inr rfl)
  · exact .inr ⟨.round, rfl⟩

end

/-- **Where a group closes, and its parts**, read by characters: `before` stands in front of the
current part. -/
theorem closing?_bytes (k : Bracket) (inner : Text) :
    ∀ (before part : Text) (d : Nat) (parts : List Text),
      closing? (before ++ (part ++ inner)) k.separator.toUInt8 (before.size + part.size) d before.size
          parts inner.bytes =
        .ok ((parts? k.separator d inner).map (found (before ++ (part ++ inner)) part parts)) := by
  induction inner with
  | nil =>
    intro before part d parts
    rfl
  | cons c inner ih =>
    intro before part d parts
    -- the character belongs to the part
    have pushed : ∀ d', closing? (before ++ (part ++ c :: inner)) k.separator.toUInt8
          (before.size + part.size + c.utf8Size) d' before.size parts (Text.bytes inner) =
        .ok (((parts? k.separator d' inner).map (push c)).map
          (found (before ++ (part ++ c :: inner)) part parts)) := by
      intro d'
      have hmove : part ++ c :: inner = part ++ [c] ++ inner := by
        rw [List.append_assoc, List.singleton_append]
      have hsize : before.size + part.size + c.utf8Size = before.size + Text.size (part ++ [c]) := by
        rw [Text.size_append, Text.size_cons, Text.size_nil, Nat.add_zero, Nat.add_assoc]
      rw [hmove, hsize, ih before (part ++ [c]) d' parts, Option.map_map]
      exact congrArg (fun f => Except.ok (Option.map f _))
        (funext fun r => (found_push part parts c r).symm)
    by_cases hc : Bracket.has c = true
    · obtain hopen | ⟨b, rfl⟩ := exists_of_has hc
      · rw [closing?_opening k _ _ _ hopen, pushed]
        rcases hopen with rfl | rfl <;> rfl
      · cases d with
        | zero =>
          rw [closing?_end, cut_append, parts?_end, Option.map_some, found_end]
          rfl
        | succ d => rw [closing?_closing, pushed, parts?_closing]
    · rw [Bool.not_eq_true] at hc
      by_cases hs : d = 0 ∧ c = k.separator
      · -- the next part begins behind the separator
        obtain ⟨rfl, rfl⟩ := hs
        have hmove : before ++ (part ++ [k.separator]) ++ ([] ++ inner) =
            before ++ (part ++ k.separator :: inner) := by
          simp only [List.append_assoc, List.nil_append, List.singleton_append]
        have hsize : Text.size (before ++ (part ++ [k.separator])) = before.size + part.size + 1 := by
          rw [Text.size_append, Text.size_append, Text.size_cons,
            utf8Size_small (separator_small k), Text.size_nil, Nat.add_assoc]
        have hrest := ih (before ++ (part ++ [k.separator])) [] 0 (part :: parts)
        rw [hmove, Text.size_nil, Nat.add_zero, hsize] at hrest
        rw [closing?_separator, cut_append, parts?_separator, Option.map_map]
        exact hrest.trans (congrArg (fun f => Except.ok (Option.map f _))
          (funext fun r => (found_separator part parts r).symm))
      · rw [closing?_char hc (fun hd he => hs ⟨hd, he⟩), parts?_char hc (fun hd he => hs ⟨hd, he⟩)]
        exact pushed d

/-- **The first group by its bytes** is the first group: it opens behind what stands in front of it,
and closes with the byte before what follows. -/
theorem firstGroup_eq (t : Text) : firstGroup t = .ok ((first? t).map fun g =>
    ⟨g.before.size, t.size - (g.after.size + 1), g.parts⟩) := by
  rw [firstGroup, opening?_bytes, first?]
  cases ho : Group.opening? t with
  | none => rfl
  | some o =>
    obtain ⟨before, s, inner⟩ := o
    obtain ⟨k, rfl, rfl⟩ := exists_of_opening? ho
    have hsplit : before ++ (k.opening ++ inner) = before ++ k.opening ++ ([] ++ inner) := by
      rw [List.append_assoc, List.nil_append]
    have hinner : 0 + (Text.size (before ++ (k.opening ++ inner)) - inner.size) =
        Text.size (before ++ k.opening) := by
      rw [hsplit, Text.size_append, List.nil_append, Nat.add_sub_cancel, Nat.zero_add]
    have hclosing := closing?_bytes k inner (before ++ k.opening) [] 0 []
    rw [← hsplit, Text.size_nil, Nat.add_zero] at hclosing
    have hdrop : (Text.bytes (before ++ (k.opening ++ inner))).drop (Text.size (before ++ k.opening)) =
        inner.bytes := by
      rw [← List.append_assoc, Text.drop_bytes]
    simp only [Option.map_some, hinner, hdrop, hclosing]
    show Except.ok (Option.map _ (Option.map _ (parts? k.separator 0 inner))) = _
    rw [Option.map_map, Option.map_map, Nat.zero_add]
    rfl

/-- what stands behind the byte that a group closes at -/
theorem exists_closing {t : Text} {g : Group} (h : first? t = some g) :
    ∃ u, t = u ++ g.after ∧ t.size - (g.after.size + 1) + 1 = u.size := by
  obtain ⟨hne, w, ht, hp⟩ := exists_of_first? h
  obtain ⟨p, hmem⟩ := List.exists_mem_of_ne_nil _ hne
  have hw := hp p hmem
  have hsize : t.size = g.before.size + (w.size + g.after.size) := by
    rw [ht, Text.size_append, Text.size_append]
  refine ⟨g.before ++ w, by rw [List.append_assoc, ← ht], ?_⟩
  rw [Text.size_append]
  omega

theorem mapM_ok {α β : Type} {f : α → Except Trouble β} {g : α → β} {xs : List α}
    (h : ∀ x ∈ xs, f x = .ok (g x)) : xs.mapM f = .ok (xs.map g) := by
  induction xs with
  | nil => rfl
  | cons x xs ih =>
    rw [List.mapM_cons, h x List.mem_cons_self, ih fun y hy => h y (List.mem_cons_of_mem _ hy)]
    rfl

/-- **The scan spells groups out without trouble**, as they are spelled out by characters. -/
theorem expand_eq (t : Text) : expand t = .ok (Glob.expand t) := by
  induction hn : t.size using Nat.strongRecOn generalizing t with
  | ind n ih =>
    subst hn
    rw [expand, firstGroup_eq]
    cases hg : first? t with
    | none =>
      rw [expand_of_none hg]
      rfl
    | some g =>
      obtain ⟨-, w, ht, -⟩ := exists_of_first? hg
      have hbefore : cut t 0 g.before.size = .ok g.before := by
        have h := cut_append [] g.before (w ++ g.after)
        rw [Text.size_nil, Nat.zero_add, List.nil_append, ← ht] at h
        exact h
      have hafter : cut t (t.size - (g.after.size + 1) + 1) t.size = .ok g.after := by
        obtain ⟨u, hu, hclosing⟩ := exists_closing hg
        have h := cut_append u g.after []
        rw [List.append_nil, ← hu, ← Text.size_append, ← hu] at h
        rw [hclosing, h]
      have hparts : ∀ p ∈ g.parts, (if _ : (g.before ++ p ++ g.after).size < t.size then
          expand (g.before ++ p ++ g.after) else .error (.notShorter (g.before ++ p ++ g.after))) =
            .ok (Glob.expand (g.choose p)) := by
        intro p hmem
        have hlt : (g.before ++ p ++ g.after).size < t.size := size_choose hg hmem
        rw [dif_pos hlt, ih _ hlt _ rfl]
        rfl
      rw [expand_of_some hg]
      show (cut t 0 g.before.size).bind _ = _
      rw [hbefore]
      show (cut t _ t.size).bind _ = _
      rw [hafter]
      show (g.parts.mapM fun p => if _ : (g.before ++ p ++ g.after).size < t.size then
          expand (g.before ++ p ++ g.after)
        else .error (.notShorter (g.before ++ p ++ g.after))).bind _ = _
      rw [mapM_ok hparts]
      rfl

end Scan

/-- something always comes of a text -/
theorem expand_ne_nil (t : Text) : expand t ≠ [] := by
  induction hn : t.size using Nat.strongRecOn generalizing t with
  | ind n ih =>
    subst hn
    cases hg : Group.first? t with
    | none =>
      rw [expand_of_none hg]
      exact List.cons_ne_nil _ _
    | some g =>
      obtain ⟨p, hmem⟩ := List.exists_mem_of_ne_nil _ (Group.exists_of_first? hg).1
      obtain ⟨u, hu⟩ := List.exists_mem_of_ne_nil _ (ih _ (Group.size_choose hg hmem) _ rfl)
      rw [expand_of_some hg]
      exact List.ne_nil_of_mem (List.mem_flatMap.mpr ⟨p, hmem, hu⟩)

/-- **No text makes trouble.**  The scan over bytes counts no bracket too few, cuts at whole
characters only and goes on with shorter texts alone, so it comes to an end, and it spells groups
out as they are spelled out by characters.  Something always comes of it: the text itself, if there
is no group to be found, and otherwise what comes of it with each part in the place of the group. -/
theorem expand_untroubled (t : Text) :
    Scan.expand t = .ok (expand t) ∧ expand t ≠ [] ∧
      ∃ found, Scan.firstGroup t = .ok found ∧
        match found with
        | none => expand t = [t]
        | some g =>
          (∀ p ∈ g.parts, (t.take g.opening ++ p ++ t.drop (g.closing + 1)).size < t.size) ∧
            expand t = g.parts.flatMap fun p =>
              expand (t.take g.opening ++ p ++ t.drop (g.closing + 1)) := by
  refine ⟨Scan.expand_eq t, expand_ne_nil t, _, Scan.firstGroup_eq t, ?_⟩
  cases hg : Group.first? t with
  | none => exact expand_of_none hg
  | some g =>
    have hbefore : t.take g.before.size = g.before := by
      obtain ⟨-, w, ht, -⟩ := Group.exists_of_first? hg
      rw [ht, Text.take_append]
    have hafter : t.drop (t.size - (g.after.size + 1) + 1) = g.after := by
      obtain ⟨u, hu, hclosing⟩ := Scan.exists_closing hg
      rw [hclosing, hu, Text.drop_append]
    show (∀ p ∈ g.parts, (t.take g.before.size ++ p ++ t.drop _).size < t.size) ∧
      expand t = g.parts.flatMap fun p => expand (t.take g.before.size ++ p ++ t.drop _)
    rw [hbefore, hafter]
    exact ⟨fun p hp => Group.size_choose hg hp, expand_of_some hg⟩

/-- a bracket that is closed by another one, between characters of two and of four bytes -/
def crossedText : Text := ['ä', '{', '(', '}', ',', '😀', '}', ')']

theorem expand_untroubled_crossed :
    Scan.firstGroup crossedText = .ok (some ⟨2, 10, [['(', '}'], ['😀']]⟩) ∧
      ['😀'] ∈ [['(', '}'], ['😀']] ∧
      (crossedText.take 2 ++ ['😀'] ++ crossedText.drop 11).size < crossedText.size ∧
      expand crossedText = [['(', '}'], ['😀']].flatMap fun p =>
        expand (crossedText.take 2 ++ p ++ crossedText.drop 11) := by
  have hfound : Scan.firstGroup crossedText = .ok (some ⟨2, 10, [['(', '}'], ['😀']]⟩) := by
    decide +kernel
  have hmem : ['😀'] ∈ [['(', '}'], ['😀']] := List.mem_cons_of_mem _ List.mem_cons_self
  obtain ⟨-, -, found, hf, hall⟩ := expand_untroubled crossedText
  obtain rfl := Except.ok.inj (hf.symm.trans hfound)
  exact ⟨hfound, hmem, hall.1 _ hmem, hall.2⟩

end StorySuite.Glob
