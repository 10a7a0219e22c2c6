/-!
# Texts and byte offsets

A text is a list of characters.  Every place in a text is named by its UTF-8 byte offset, so a
place can also fall inside a character, and then it is no place to cut at.

* `Text.bytes t`         the UTF-8 bytes of `t`, and `Text.size t` their number;
* `Text.split? t n`      the parts before and after byte `n`, when `n` is a character boundary;
* `Text.drop t n`, `Text.take t n`, `Text.slice t a b`   the parts that a boundary cuts off;
* `Text.slice? t a b`    the same as `Text.slice t a b`, where both are boundaries;
* `Text.units t`         the number of UTF-16 units of `t`.

`size_append` and `split?_append` say that cutting a concatenation at its seam gives the two
parts back, which is all that is used of offsets elsewhere.
-/

namespace StorySuite

/-- A text as its characters. -/
abbrev Text := List Char

instance : Coe String Text := ⟨String.toList⟩

namespace Text

/-- The number of UTF-8 bytes. -/
def size : Text → Nat
  | [] => 0
  | c :: t => c.utf8Size + size t

/-- The UTF-8 bytes. -/
def bytes (t : Text) : List UInt8 := t.flatMap String.utf8EncodeChar

/-- The number of UTF-16 units of one character. -/
def charUnits (c : Char) : Nat := if c.toNat < 0x10000 then 1 else 2

/-- The number of UTF-16 units. -/
def units : Text → Nat
  | [] => 0
  | c :: t => charUnits c + units t

/-- The two parts of `t` at byte `n`, when a character begins there or the text ends there. -/
def split? : Text → Nat → Option (Text × Text)
  | t, 0 => some ([], t)
  | [], _ + 1 => none
  | c :: t, n + 1 =>
    if c.utf8Size ≤ n + 1 then (split? t (n + 1 - c.utf8Size)).map fun p => (c :: p.1, p.2)
    else none

/-- Whether byte `n` is a place to cut `t` at. -/
def isBoundary (t : Text) (n : Nat) : Bool := (split? t n).isSome

/-- The part of `t` from byte `n` on. -/
def drop (t : Text) (n : Nat) : Text := ((split? t n).map (·.2)).getD []

/-- The part of `t` before byte `n`. -/
def take (t : Text) (n : Nat) : Text := ((split? t n).map (·.1)).getD t

/-- The part of `t` from byte `a` to byte `b`. -/
def slice (t : Text) (a b : Nat) : Text := take (drop t a) (b - a)

/-- The same part, when `a` and `b` are places to cut `t` at and in this order. -/
def slice? (t : Text) (a b : Nat) : Option Text :=
  if a ≤ b && isBoundary t a && isBoundary t b then some (slice t a b) else none

/-- `t` without the characters of `tail` at its end, when it ends with them. -/
def dropTail? (tail t : Text) : Option Text :=
  if tail.isSuffixOf t then some (List.take (t.length - tail.length) t) else none

/-- Whether `part` occurs in `t`. -/
def contains (part : Text) : Text → Bool
  | [] => part.isEmpty
  | c :: t => part.isPrefixOf (c :: t) || contains part t

/-- The pieces of `t` between the occurrences of `sep`. -/
def fields (sep : Char) : Text → List Text
  | [] => [[]]
  | c :: t =>
    if c = sep then [] :: fields sep t
    else match fields sep t with
      | [] => [[c]]
      | f :: fs => (c :: f) :: fs

/-- The pieces `fs` in one text, `sep` between them. -/
def join (sep : Text) : List Text → Text
  | [] => []
  | [f] => f
  | f :: fs => f ++ sep ++ join sep fs

/-- Decimal digits of a number. -/
def ofNat (n : Nat) : Text := Nat.toDigits 10 n

@[simp] theorem size_nil : size [] = 0 := rfl

@[simp] theorem size_cons (c : Char) (t : Text) : size (c :: t) = c.utf8Size + size t := rfl

@[simp] theorem size_append (s t : Text) : size (s ++ t) = size s + size t := by
  induction s with
  | nil => simp
  | cons c s ih => simp [ih, Nat.add_assoc]

@[simp] theorem units_nil : units [] = 0 := rfl

@[simp] theorem units_append (s t : Text) : units (s ++ t) = units s + units t := by
  induction s with
  | nil => simp
  | cons c s ih => simp [units, ih, Nat.add_assoc]

@[simp] theorem split?_zero (t : Text) : split? t 0 = some ([], t) := by
  cases t <;> rfl

theorem split?_append (s t : Text) : split? (s ++ t) (size s) = some (s, t) := by
  induction s with
  | nil => simp
  | cons c s ih =>
    have hc : 0 < c.utf8Size := Char.utf8Size_pos c
    obtain ⟨k, hk⟩ : ∃ k, size (c :: s) = k + 1 := ⟨c.utf8Size + size s - 1, by simp; omega⟩
    have hle : c.utf8Size ≤ k + 1 := by rw [← hk]; simp
    have hsub : k + 1 - c.utf8Size = size s := by rw [← hk]; simp
    rw [hk]
    simp [split?, hle, hsub, ih]

end Text

end StorySuite
