import StorySuite.Text.Basic

/-!
# Double-precision numbers

The non-negative numbers that a double holds: a mantissa of at most 53 bits times a power of two.
All of it is exact arithmetic on natural numbers with one rounding at the end.

* `Double.ofRatio? n d`   the double nearest to `n / d`, a tie going to the even mantissa; none
                          where the quotient is too large;
* `Double.shortest d`     the shortest decimal that reads back as `d`;
* `Double.text d`         how a double is written.
-/

namespace StorySuite

/-- The number `mantissa * 2 ^ exponent`. -/
structure Double where
  mantissa : Nat
  exponent : Int
  deriving DecidableEq, Repr, Inhabited

namespace Double

/-- The exponent of the smallest doubles. -/
def minExponent : Int := -1074

/-- The exponent of the largest doubles. -/
def maxExponent : Int := 971

def zero : Double := ⟨0, minExponent⟩

/-- The natural number nearest to `n / d`, of two the even one. -/
def nearest (n d : Nat) : Nat :=
  let q := n / d
  let r := n % d
  if 2 * r < d then q
  else if d < 2 * r then q + 1
  else if q % 2 = 0 then q else q + 1

/-- The quotient of `n * b ^ -e` and `d`, as a numerator and a denominator. -/
def scaled (b : Nat) (n d : Nat) (e : Int) : Nat × Nat :=
  if 0 ≤ e then (n, d * b.pow e.toNat) else (n * b.pow (-e).toNat, d)

/-- The exponent that gives `n / d` a mantissa of 53 bits. -/
def exponentOf (n d : Nat) : Int :=
  let e : Int := (Nat.log2 n : Int) - Nat.log2 d - 52
  let (a, b) := scaled 2 n d e
  if a < b * Nat.pow 2 52 then e - 1 else e

/-- The double nearest to `n / d`. -/
def ofRatio? (n d : Nat) : Option Double :=
  if n = 0 then some zero
  else
    let e := max minExponent (exponentOf n d)
    let (a, b) := scaled 2 n d e
    let m := nearest a b
    let r : Double := if m = Nat.pow 2 53 then ⟨Nat.pow 2 52, e + 1⟩ else ⟨m, e⟩
    if maxExponent < r.exponent then none else some r

/-- A double as a quotient. -/
def ratio (x : Double) : Nat × Nat := scaled 2 x.mantissa 1 (-x.exponent)

/-- The double nearest to a product. -/
def mul? (x y : Double) : Option Double :=
  ofRatio? (x.ratio.1 * y.ratio.1) (x.ratio.2 * y.ratio.2)

/-- The double nearest to a quotient. -/
def div? (x y : Double) : Option Double :=
  ofRatio? (x.ratio.1 * y.ratio.2) (x.ratio.2 * y.ratio.1)

/-- The number of digits in front of the point of `n / d`; where the first digit stands behind it,
the number of zeros between them, negated.  The first number bounds these zeros. -/
def magnitude : Nat → Nat → Nat → Int
  | 0, _, _ => 0
  | k + 1, n, d =>
    if d ≤ n then ((Nat.toDigits 10 (n / d)).length : Int)
    else if d ≤ 10 * n then 0
    else magnitude k (10 * n) d - 1

/-- A number of digits and an exponent of ten without zeros at the end of the digits. -/
def dropZeros : Nat → Nat → Int → Nat × Int
  | 0, c, p => (c, p)
  | k + 1, c, p => if c % 10 = 0 && c != 0 then dropZeros k (c / 10) (p + 1) else (c, p)

/-- The decimal with `size` digits next to `x` that reads back as `x`. -/
def decimal? (x : Double) (k : Int) (size : Nat) : Option (Nat × Int) :=
  let p := k - size
  let (n, d) := x.ratio
  let (a, b) := scaled 10 n d p
  let below := a / b
  let reads (c : Nat) : Bool :=
    let (n, d) := scaled 10 c 1 (-p)
    ofRatio? n d = some x
  let near := nearest a b
  if reads near then some (dropZeros size near p)
  else if reads below then some (dropZeros size below p)
  else if reads (below + 1) then some (dropZeros size (below + 1) p)
  else none

/-- The digits and the exponent of ten of the shortest decimal that reads back as `x`. -/
def shortest (x : Double) : Nat × Int :=
  let (n, d) := x.ratio
  let k := magnitude 400 n d
  ((List.range 17).findSome? fun i => decimal? x k (i + 1)).getD (0, 0)

def zeros (n : Nat) : Text := List.replicate n '0'

/-- An integer with its sign. -/
def ofInt (n : Int) : Text :=
  if n < 0 then '-' :: Text.ofNat n.natAbs else Text.ofNat n.natAbs

/-- A double in digits: with a point up to sixteen digits in front of it and five zeros behind it,
and with an exponent beyond. -/
def text (x : Double) : Text :=
  if x.mantissa = 0 then ['0', '.', '0']
  else
    let (c, p) := x.shortest
    let digits := Text.ofNat c
    let k : Int := digits.length + p
    if 0 ≤ p && k ≤ 16 then digits ++ zeros p.toNat ++ ['.', '0']
    else if 0 < k && k ≤ 16 then digits.take k.toNat ++ '.' :: digits.drop k.toNat
    else if -5 < k && k ≤ 0 then '0' :: '.' :: zeros (-k).toNat ++ digits
    else match digits with
      | [c] => c :: 'e' :: ofInt (k - 1)
      | c :: cs => c :: '.' :: cs ++ 'e' :: ofInt (k - 1)
      | [] => []

end Double

end StorySuite
