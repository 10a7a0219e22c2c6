import StorySuite.Text.Basic

/-!
# Variable-length quantities

A number is written in groups of five bits, the lowest first, each as one character of the base 64
alphabet; a sixth bit says that another group follows.  The lowest bit of all is the sign.

`Vlq.encode` writes a number, `Vlq.decode?` reads one off the front of a text.
-/

namespace StorySuite.Vlq

/-- The characters of the 64 digits. -/
def alphabet : Text :=
  "ABCDEFGHIJKLMNOPQRSTUVWXYZabcdefghijklmnopqrstuvwxyz0123456789+/"

def digit (n : Nat) : Char := alphabet.getD n 'A'

/-- The digit that a character stands for. -/
def value? (c : Char) : Option Nat :=
  let i := alphabet.idxOf c
  if i < 64 then some i else none

/-- A number with its sign as the lowest bit. -/
def zigzag (n : Int) : Nat := if n < 0 then 2 * n.natAbs + 1 else 2 * n.natAbs

/-- The number whose lowest bit is its sign. -/
def unzigzag (n : Nat) : Int := if n % 2 = 1 then -((n / 2 : Nat) : Int) else ((n / 2 : Nat) : Int)

/-- The groups of a number without a sign. -/
def encodeNat (n : Nat) : Text :=
  if h : n / 32 = 0 then [digit (n % 32)]
  else digit (n % 32 + 32) :: encodeNat (n / 32)
termination_by n
decreasing_by omega

def encode (n : Int) : Text := encodeNat (zigzag n)

/-- The number without a sign at the front of a text, and the rest of the text. -/
def decodeNat? : Text → Option (Nat × Text)
  | [] => none
  | c :: t =>
    match value? c with
    | none => none
    | some d =>
      if d < 32 then some (d, t)
      else (decodeNat? t).map fun p => (d - 32 + 32 * p.1, p.2)

/-- The number at the front of a text, and the rest of the text. -/
def decode? (t : Text) : Option (Int × Text) :=
  (decodeNat? t).map fun p => (unzigzag p.1, p.2)

end StorySuite.Vlq
