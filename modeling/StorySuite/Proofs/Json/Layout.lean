import StorySuite.Json.Reader

/-!
# JSON texts

One value can be written in many ways: with blanks between its parts, with escapes for any of its
characters.  Here this is told by relations between what is meant and how it is written, so that
nothing is said of how it is read.

* `Blanks w`            `w` is blank;
* `Spells c t`          `t` stands for the character `c` inside of a string;
* `Quotes s t`          `t` is a string with the characters `s`;
* `Row P as t`          `t` holds something for each of `as`, with commas and blanks;
* `ListOf P as t`, `ObjectOf fs t`   the same in brackets, for items and for named fields;
* `Value t`             `t` is any value at all;
* `Leads first t`, `Closes t`   what stands in front of a member, and what can stand behind a value.
-/

namespace StorySuite.Json

/-- `w` is blank -/
def Blanks (w : Text) : Prop := ∀ c ∈ w, isBlank c = true

instance (w : Text) : Decidable (Blanks w) :=
  decidable_of_iff (w.all isBlank = true) List.all_eq_true

theorem blanks_nil : Blanks [] := nofun

theorem skipBlanks_append {w : Text} (hw : Blanks w) {c : Char} (hc : isBlank c = false) (t : Text) :
    skipBlanks (w ++ c :: t) = c :: t := by
  rw [skipBlanks, List.dropWhile_append_of_pos hw, List.dropWhile_cons, hc,
    if_neg Bool.false_ne_true]

/-! ## strings -/

/-- `c` is a hexadecimal digit for `n`, in upper or lower case -/
def HexDigit (n : Nat) (c : Char) : Prop :=
  n < 16 ∧ (c = Nat.digitChar n ∨ c = (Nat.digitChar n).toUpper)

/-- four digits of a number -/
inductive Hex4 : Nat → Text → Prop
  | digits {a b c d : Nat} {x y z w : Char} (hx : HexDigit a x) (hy : HexDigit b y)
      (hz : HexDigit c z) (hw : HexDigit d w) :
      Hex4 (((a * 16 + b) * 16 + c) * 16 + d) [x, y, z, w]

/-- the letters behind a backslash, and what they stand for -/
def letters : List (Char × Char) :=
  [('"', '"'), ('\\', '\\'), ('/', '/'), ('b', Char.ofNat 8), ('f', Char.ofNat 12), ('n', '\n'),
    ('r', '\r'), ('t', '\t')]

/-- **How a character is spelled** inside of a string: as it is, by a letter, or by its UTF-16 units,
of which there can be two. -/
inductive Spells : Char → Text → Prop
  | plain {c : Char} (hquote : c ≠ '"') (hback : c ≠ '\\') (hc : 32 ≤ c.toNat) : Spells c [c]
  | letter {c l : Char} (h : (l, c) ∈ letters) : Spells c ['\\', l]
  | unit {c : Char} {t : Text} (h : Hex4 c.toNat t) : Spells c ('\\' :: 'u' :: t)
  | pair {c : Char} {high low : Nat} {s t : Text} (hs : Hex4 high s) (ht : Hex4 low t)
      (hhigh : 0xd800 ≤ high ∧ high < 0xdc00) (hlow : 0xdc00 ≤ low ∧ low < 0xe000)
      (hc : c.toNat = 0x10000 + (high - 0xd800) * 0x400 + (low - 0xdc00)) :
      Spells c ('\\' :: 'u' :: (s ++ '\\' :: 'u' :: t))

/-- how characters are spelled, one after the other -/
inductive SpellsAll : Text → Text → Prop
  | nil : SpellsAll [] []
  | cons {c : Char} {s t u : Text} (h : Spells c t) (rest : SpellsAll s u) :
      SpellsAll (c :: s) (t ++ u)

/-- `t` is a string with the characters `s`. -/
def Quotes (s t : Text) : Prop := ∃ u, SpellsAll s u ∧ t = '"' :: (u ++ ['"'])

/-! ## lists and objects -/

/-- `t` holds something for each of `as`, with commas between them and blanks around each. -/
inductive Row {α : Type} (P : α → Text → Prop) : List α → Text → Prop
  | nil {w : Text} (hw : Blanks w) : Row P [] w
  | one {a : α} {v w w' : Text} (hw : Blanks w) (h : P a v) (hw' : Blanks w') :
      Row P [a] (w ++ (v ++ w'))
  | more {a : α} {as : List α} {v w w' t : Text} (hw : Blanks w) (h : P a v) (hw' : Blanks w')
      (rest : Row P as t) (hne : as ≠ []) : Row P (a :: as) (w ++ (v ++ (w' ++ ',' :: t)))

/-- `t` is a list of what stands for each of `as`. -/
def ListOf {α : Type} (P : α → Text → Prop) (as : List α) (t : Text) : Prop :=
  ∃ u, Row P as u ∧ t = '[' :: (u ++ [']'])

/-- `t` is a key as it is written, `f.1`, and its value, `f.2`, with a colon between them -/
def Pair (f : Text × Text) (t : Text) : Prop :=
  ∃ w w', Blanks w ∧ Blanks w' ∧ t = f.1 ++ (w ++ ':' :: (w' ++ f.2))

/-- the same for a key `f.1`, however it is written -/
def Named (f : Text × Text) (t : Text) : Prop := ∃ q, Quotes f.1 q ∧ Pair (q, f.2) t

/-- `t` is an object with the fields `fs`, each a key and its value as it is written. -/
def ObjectOf (fs : List (Text × Text)) (t : Text) : Prop :=
  ∃ u, Row Named fs u ∧ t = '\x7b' :: (u ++ ['\x7d'])

/-- `t` is `null`, or stands for what there is. -/
inductive OrNull {α : Type} (P : α → Text → Prop) : Option α → Text → Prop
  | null : OrNull P none ['n', 'u', 'l', 'l']
  | given {a : α} {t : Text} (h : P a t) : OrNull P (some a) t

/-! ## values of any kind -/

/-- the inside of a string, whatever the units of its characters are -/
inductive StringText : Text → Prop
  | nil : StringText []
  | plain {c : Char} {t : Text} (hquote : c ≠ '"') (hback : c ≠ '\\') (hc : 32 ≤ c.toNat)
      (rest : StringText t) : StringText (c :: t)
  | letter {c l : Char} {t : Text} (h : (l, c) ∈ letters) (rest : StringText t) :
      StringText ('\\' :: l :: t)
  | unit {n : Nat} {s t : Text} (h : Hex4 n s) (rest : StringText t) :
      StringText ('\\' :: 'u' :: (s ++ t))

/-- `t` is a string. -/
def IsString (t : Text) : Prop := ∃ u, StringText u ∧ t = '"' :: (u ++ ['"'])

/-- one digit or more -/
def Digits (t : Text) : Prop := t ≠ [] ∧ ∀ c ∈ t, c.isDigit = true

/-- an integer without needless zeros -/
inductive Integer : Text → Prop
  | zero : Integer ['0']
  | other {c : Char} {t : Text} (hc : c.isDigit = true) (h0 : c ≠ '0')
      (ht : ∀ x ∈ t, x.isDigit = true) : Integer (c :: t)

/-- what may stand behind an integer -/
inductive Fraction : Text → Prop
  | none : Fraction []
  | some {t : Text} (h : Digits t) : Fraction ('.' :: t)

/-- what may stand behind that -/
inductive Exponent : Text → Prop
  | none : Exponent []
  | some {c : Char} {s t : Text} (hc : c = 'e' ∨ c = 'E') (hs : s = [] ∨ s = ['+'] ∨ s = ['-'])
      (h : Digits t) : Exponent (c :: (s ++ t))

/-- a number without a sign -/
inductive Numeral : Text → Prop
  | mk {i f e : Text} (hi : Integer i) (hf : Fraction f) (he : Exponent e) :
      Numeral (i ++ (f ++ e))

/-- **`t` is a value**, of any depth and any size. -/
inductive Value : Text → Prop
  | null : Value ['n', 'u', 'l', 'l']
  | true : Value ['t', 'r', 'u', 'e']
  | false : Value ['f', 'a', 'l', 's', 'e']
  | positive {t : Text} (h : Numeral t) : Value t
  | negative {t : Text} (h : Numeral t) : Value ('-' :: t)
  | string {t : Text} (h : IsString t) : Value t
  | list {vs : List Text} {t : Text} (h : Row Eq vs t) (values : ∀ v ∈ vs, Value v) :
      Value ('[' :: (t ++ [']']))
  | object {fs : List (Text × Text)} {t : Text} (h : Row Pair fs t) (keys : ∀ f ∈ fs, IsString f.1)
      (values : ∀ f ∈ fs, Value f.2) : Value ('\x7b' :: (t ++ ['\x7d']))

/-! ## what stands around a value -/

/-- what can stand behind a value inside of brackets -/
def closers : List Char := [' ', '\n', '\t', '\r', ',', ']', '\x7d']

/-- one of these stands in front of `rest` -/
def Closes (rest : Text) : Prop := ∃ c ∈ closers, ∃ u, rest = c :: u

theorem mem_closers {c : Char} (h : isBlank c = true) : c ∈ closers := by
  rcases (by simpa [isBlank] using h : ((c = ' ' ∨ c = '\n') ∨ c = '\t') ∨ c = '\r')
    with ((rfl | rfl) | rfl) | rfl <;> decide

theorem closes_append {w rest : Text} (hw : Blanks w) (h : Closes rest) : Closes (w ++ rest) := by
  cases w with
  | nil => exact h
  | cons c w => exact ⟨c, mem_closers (hw c List.mem_cons_self), _, rfl⟩

/-- `v` begins with a character that is no blank and neither divides nor closes. -/
def Begins (v : Text) : Prop := ∃ c ∉ closers, ∃ t, v = c :: t

/-- what stands in front of a member: nothing for the first, else a comma -/
inductive Leads : Bool → Text → Prop
  | first : Leads true []
  | later {w : Text} (hw : Blanks w) : Leads false (w ++ [','])

theorem isBlank_eq_false {c : Char} (h : c ∉ closers) : isBlank c = false :=
  Bool.eq_false_iff.mpr fun hb => h (mem_closers hb)

theorem begins_quotes {s q : Text} (h : Quotes s q) : Begins q := by
  obtain ⟨u, -, rfl⟩ := h
  exact ⟨'"', by decide, _, rfl⟩

end StorySuite.Json
