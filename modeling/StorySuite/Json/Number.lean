import StorySuite.Number.Double

/-!
# JSON numbers

An integer of 64 bits is kept as it is; every other number is the double next to it.
-/

namespace StorySuite.Json

/-- A number of a JSON text; a negative one is given by its size. -/
inductive Number where
  | natural (n : Nat)
  | negative (n : Nat)
  | real (minus : Bool) (size : Double)
  deriving DecidableEq, Repr, Inhabited

namespace Number

/-- The largest natural number that is kept. -/
def maxNatural : Nat := Nat.pow 2 64 - 1

/-- The size of the smallest negative number that is kept. -/
def maxNegative : Nat := Nat.pow 2 63

def text : Number → Text
  | natural n => Text.ofNat n
  | negative n => '-' :: Text.ofNat n
  | real minus x => (if minus then ['-'] else []) ++ x.text

end Number

end StorySuite.Json
