import StorySuite.Json.Basic
import StorySuite.Json.Characters
import StorySuite.Proofs.Json.Layout

/-!
# Strings that are read

However the characters of a string are spelled, they are what is read; and a string that is only
passed over ends where its quotes close.

* `characters_spelled`         **a string is read, whatever the spelling of its characters**;
* `skipCharacters_stringText`  a string is passed over, whatever its units are;
* `quotes_quote`               a string that is written, each character in the one way there is.
-/

namespace StorySuite.Json

/-! ## escapes -/

theorem hexValue?_of_hexDigit {n : Nat} {c : Char} (h : HexDigit n c) : hexValue? c = some n := by
  have hall : ∀ k : Fin 16, hexValue? (Nat.digitChar k) = some k.val ∧
      hexValue? (Nat.digitChar k).toUpper = some k.val := by decide +kernel
  obtain ⟨hn, rfl | rfl⟩ := h
  · exact (hall ⟨n, hn⟩).1
  · exact (hall ⟨n, hn⟩).2

theorem Hex4.length_eq {n : Nat} {t : Text} (h : Hex4 n t) : t.length = 4 := by
  cases h
  rfl

theorem Hex4.drop_append {n : Nat} {t : Text} (h : Hex4 n t) (u : Text) :
    List.drop 4 (t ++ u) = u := List.drop_left' h.length_eq

theorem hex4_append {n : Nat} {t : Text} (h : Hex4 n t) (u : Text) : hex4 (t ++ u) = .ok n := by
  cases h with
  | digits hx hy hz hw =>
    simp only [List.cons_append, List.nil_append, hex4, hex4?, hexValue?_of_hexDigit hx,
      hexValue?_of_hexDigit hy, hexValue?_of_hexDigit hz, hexValue?_of_hexDigit hw,
      Option.bind_eq_bind, Option.bind_some, Option.pure_def]

theorem letterEscape?_of_mem {c l : Char} (h : (l, c) ∈ letters) : letterEscape? l = some c := by
  have hall : ∀ p ∈ letters, letterEscape? p.1 = some p.2 := by decide
  exact hall _ h

theorem escape_letter {c l : Char} (h : (l, c) ∈ letters) (u : Text) :
    escape (l :: u) = .ok (c, 1) := by
  simp only [escape, letterEscape?_of_mem h]

theorem escapeLength_letter {c l : Char} (h : (l, c) ∈ letters) (u : Text) :
    escapeLength (l :: u) = .ok 1 := by
  simp only [escapeLength, letterEscape?_of_mem h]

theorem escape_of_unitEscape {t : Text} {c : Char} {n : Nat} (h : unitEscape t = .ok (c, n)) :
    escape ('u' :: t) = .ok (c, n + 1) := by
  have hletter : letterEscape? 'u' = none := rfl
  simp only [escape, hletter, if_true, h]
  rfl

theorem escapeLength_unit {n : Nat} {t : Text} (h : Hex4 n t) (u : Text) :
    escapeLength ('u' :: (t ++ u)) = .ok 5 := by
  have hletter : letterEscape? 'u' = none := rfl
  simp only [escapeLength, hletter, if_true, hex4_append h]
  rfl

theorem isLowSurrogate_eq_false {n : Nat} (h : n < 0xdc00 ∨ 0xdfff < n) :
    isLowSurrogate n = false := by
  rw [isLowSurrogate, ← Bool.decide_and]
  exact decide_eq_false (by omega)

theorem isHighSurrogate_eq_false {n : Nat} (h : n < 0xd800 ∨ 0xdbff < n) :
    isHighSurrogate n = false := by
  rw [isHighSurrogate, ← Bool.decide_and]
  exact decide_eq_false (by omega)

theorem unitEscape_unit {c : Char} {t : Text} (h : Hex4 c.toNat t) (u : Text) :
    unitEscape (t ++ u) = .ok (c, 4) := by
  -- no character is one half of a pair
  have hvalid : c.toNat < 0xd800 ∨ 0xdfff < c.toNat ∧ c.toNat < 0x110000 := c.valid
  rw [unitEscape, hex4_append h]
  show (if isLowSurrogate c.toNat then _ else if isHighSurrogate c.toNat then _ else _) = _
  rw [isLowSurrogate_eq_false (by omega), isHighSurrogate_eq_false (by omega),
    if_neg Bool.false_ne_true, if_neg Bool.false_ne_true, Char.ofNat_toNat]
  rfl

theorem unitEscape_pair {c : Char} {high low : Nat} {s t : Text} (hs : Hex4 high s)
    (ht : Hex4 low t) (hhigh : 0xd800 ≤ high ∧ high < 0xdc00) (hlow : 0xdc00 ≤ low ∧ low < 0xe000)
    (hc : c.toNat = 0x10000 + (high - 0xd800) * 0x400 + (low - 0xdc00)) (u : Text) :
    unitEscape (s ++ '\\' :: 'u' :: (t ++ u)) = .ok (c, 10) := by
  have hfirst : isHighSurrogate high = true := by
    rw [isHighSurrogate, ← Bool.decide_and]
    exact decide_eq_true (by omega)
  have hsecond : isLowSurrogate low = true := by
    rw [isLowSurrogate, ← Bool.decide_and]
    exact decide_eq_true (by omega)
  have hlow : lowSurrogate ('\\' :: 'u' :: (t ++ u)) = .ok low := by
    rw [lowSurrogate, hex4_append ht]
    show (if isLowSurrogate low then _ else _) = _
    rw [if_pos hsecond]
  have hchar : ofSurrogates high low = c := by
    rw [ofSurrogates, ← Char.ofNat_toNat c, hc, Nat.add_comm, Nat.add_assoc]
  rw [unitEscape, hex4_append hs]
  show (if isLowSurrogate high then _ else if isHighSurrogate high then _ else _) = _
  rw [isLowSurrogate_eq_false (by omega), hfirst, if_neg Bool.false_ne_true, if_pos rfl,
    hs.drop_append, hlow, ← hchar]
  rfl

/-! ## strings -/

/-- a character that is read from an escape of `n` characters -/
theorem charactersFrom_escaped {c : Char} {e u : Text} {n : Nat} (hn : e.length = n)
    (h : escape (e ++ u) = .ok (c, n)) :
    charactersFrom 0 ('\\' :: (e ++ u)) = (charactersFrom 0 u).map fun p => (c :: p.1, p.2) := by
  have hskip : ∀ (e u : Text), charactersFrom e.length (e ++ u) = charactersFrom 0 u := by
    intro e u
    induction e with
    | nil => rfl
    | cons _ e ih => exact ih
  rw [charactersFrom, if_neg (by decide), if_pos rfl, h, ← hn]
  show (charactersFrom e.length (e ++ u)).map _ = _
  rw [hskip]

theorem charactersFrom_spelled {c : Char} {t : Text} (h : Spells c t) (u : Text) :
    charactersFrom 0 (t ++ u) = (charactersFrom 0 u).map fun p => (c :: p.1, p.2) := by
  cases h with
  | plain hquote hback hc =>
    rw [List.singleton_append, charactersFrom, if_neg hquote, if_neg hback, if_neg (by omega)]
  | letter hl => exact charactersFrom_escaped (e := [_]) rfl (escape_letter hl u)
  | @unit t ht =>
    exact charactersFrom_escaped (e := 'u' :: t) (congrArg (· + 1) ht.length_eq)
      (escape_of_unitEscape (unitEscape_unit ht u))
  | @pair high low s t hs ht hhigh hlow hc =>
    have hlength : ('u' :: (s ++ '\\' :: 'u' :: t)).length = 11 := by
      simp only [List.length_cons, List.length_append, hs.length_eq, ht.length_eq]
    have hescape : escape ('u' :: (s ++ '\\' :: 'u' :: t) ++ u) = .ok (c, 11) := by
      rw [List.cons_append, List.append_assoc]
      exact escape_of_unitEscape (unitEscape_pair hs ht hhigh hlow hc u)
    exact charactersFrom_escaped hlength hescape

/-- **A string is read, whatever the spelling of its characters.** -/
theorem characters_spelled {s u : Text} (h : SpellsAll s u) (rest : Text) :
    characters (u ++ '"' :: rest) = .ok (s, rest) := by
  unfold characters
  induction h with
  | nil => rfl
  | cons hc _ ih =>
    rw [List.append_assoc, charactersFrom_spelled hc, ih]
    rfl

theorem skipCharactersFrom_append (e u : Text) :
    skipCharactersFrom e.length (e ++ u) = skipCharactersFrom 0 u := by
  induction e with
  | nil => rfl
  | cons _ e ih => exact ih

/-- A string is passed over, whatever its units are. -/
theorem skipCharacters_stringText {u : Text} (h : StringText u) (rest : Text) :
    skipCharacters (u ++ '"' :: rest) = .ok rest := by
  unfold skipCharacters
  induction h with
  | nil => rfl
  | plain hquote hback hc _ ih =>
    rw [List.cons_append, skipCharactersFrom, if_neg hquote, if_neg hback, if_neg (by omega), ih]
  | @letter c l t hl _ ih =>
    rw [List.cons_append, List.cons_append, skipCharactersFrom, if_neg (by decide), if_pos rfl,
      escapeLength_letter hl]
    exact ih
  | @unit n s t hs _ ih =>
    rw [List.cons_append, List.cons_append, List.append_assoc, skipCharactersFrom,
      if_neg (by decide), if_pos rfl, escapeLength_unit hs]
    have hlength : ('u' :: s).length = 5 := congrArg (· + 1) hs.length_eq
    show skipCharactersFrom 5 ('u' :: s ++ (t ++ '"' :: rest)) = _
    rw [← hlength, skipCharactersFrom_append, ih]

/-! ## strings that are written -/

theorem spells_escapeChar (c : Char) : Spells c (escapeChar c) := by
  have htoNat : ∀ n : Nat, c.toNat = n → c = Char.ofNat n := by
    rintro n rfl
    exact (Char.ofNat_toNat c).symm
  have hletter : ∀ x : Char, c = x → ∀ l, (l, x) ∈ letters → Spells c ['\\', l] := by
    rintro x rfl l hl
    exact .letter hl
  unfold escapeChar
  split
  case isTrue hc => exact hletter _ hc _ (by decide)
  rename_i hquote
  split
  case isTrue hc => exact hletter _ hc _ (by decide)
  rename_i hback
  split
  case isTrue hc => exact hletter _ hc _ (by decide)
  split
  case isTrue hc => exact hletter _ hc _ (by decide)
  split
  case isTrue hc => exact hletter _ hc _ (by decide)
  split
  case isTrue hc => exact hletter _ (htoNat 8 hc) _ (by decide)
  split
  case isTrue hc => exact hletter _ (htoNat 12 hc) _ (by decide)
  split
  case isTrue hc =>
    have hdigit : ∀ n, n < 16 → HexDigit n (hexDigit n) := fun n hn => ⟨hn, Or.inl rfl⟩
    have hsum : ((0 * 16 + 0) * 16 + c.toNat / 16) * 16 + c.toNat % 16 = c.toNat := by omega
    have hhex := Hex4.digits (hdigit 0 (by decide)) (hdigit 0 (by decide))
      (hdigit (c.toNat / 16) (by omega)) (hdigit (c.toNat % 16) (by omega))
    rw [hsum] at hhex
    exact .unit hhex
  case isFalse hc => exact .plain hquote hback (by omega)

theorem spellsAll_escapeChar (t : Text) : SpellsAll t (t.flatMap escapeChar) := by
  induction t with
  | nil => exact .nil
  | cons c t ih => exact .cons (spells_escapeChar c) ih

theorem quotes_quote (t : Text) : Quotes t (quote t) := ⟨_, spellsAll_escapeChar t, rfl⟩

end StorySuite.Json
