import StorySuite.Json.Fault

/-!
# The digits of a JSON number

A number is read from left to right.  Its digits are gathered in a significand of 64 bits; once
another digit has no room, the digits in front of the point only raise the exponent and those
behind it are dropped.  The value is the significand as a double, times or over a power of ten.

* `Number.read minus t`   the number at the front of `t`, whose sign is read;
* `Number.skip t`          what follows it, whatever its size.
-/

namespace StorySuite.Json

def digits (t : Text) : Text := t.takeWhile Char.isDigit

/-- What follows the digits at the front of a text. -/
def afterDigits (t : Text) : Text := t.dropWhile Char.isDigit

def digitValue (c : Char) : Nat := c.toNat - 48

/-- A significand with as many of the digits behind it as there is room for, and the number of those
that are left. -/
def gatherDigits (n : Nat) : Text → Nat × Nat
  | [] => (n, 0)
  | c :: t =>
    let m := n * 10 + digitValue c
    if Number.maxNatural < m then (n, t.length + 1) else gatherDigits m t

/-- A power of ten, up to that of the largest double. -/
def powerOfTen (n : Nat) : Double := (Double.ofRatio? (Nat.pow 10 n) 1).getD .zero

/-- A significand times a power of ten; none where it is too large. -/
def scaleUp? (x : Double) (n : Nat) : Option Double :=
  if n ≤ 308 then x.mul? (powerOfTen n)
  else if x.mantissa = 0 then some x
  else none

/-- A significand over a power of ten. -/
def scaleDown (x : Double) (n : Nat) : Double :=
  if n ≤ 308 then (x.div? (powerOfTen n)).getD x
  else if x.mantissa = 0 then x
  else scaleDown ((x.div? (powerOfTen 308)).getD x) (n - 308)
termination_by n

/-- The double of a significand and an exponent of ten; a fault stands in front of `rest`. -/
def realOf (minus : Bool) (significand : Nat) (exponent : Int) (rest : Text) : Outcome Number :=
  let x := (Double.ofRatio? significand 1).getD .zero
  if 0 ≤ exponent then
    match scaleUp? x exponent.toNat with
    | some y => .ok (.real minus y, rest)
    | none => .error (.before .numberTooLarge rest)
  else .ok (.real minus (scaleDown x (-exponent).toNat), rest)

/-- The largest exponent that is read to its end. -/
def maxExponent : Nat := Nat.pow 2 31 - 1

/-- The exponent with the digits behind it; none where it grows too large, and then what follows the
digit that made it so. -/
def gatherExponent (n : Nat) : Text → Except Text (Nat × Text)
  | [] => .ok (n, [])
  | c :: t =>
    if c.isDigit then
      let m := n * 10 + digitValue c
      if maxExponent < m then .error t else gatherExponent m t
    else .ok (n, c :: t)

/-- Whether an exponent has a minus sign, and its digits. -/
def exponentSign : Text → Bool × Text
  | '+' :: t => (false, t)
  | '-' :: t => (true, t)
  | t => (false, t)

/-- A number from its exponent on, which stands behind `e`. -/
def exponentPart (minus : Bool) (significand : Nat) (exponent : Int) (t : Text) : Outcome Number :=
  let (down, u) := exponentSign t
  match u with
  | [] => .error (.before .endInValue [])
  | c :: v =>
    if !c.isDigit then .error (.behind .invalidNumber u)
    else match gatherExponent (digitValue c) v with
      | .ok (n, rest) => realOf minus significand (if down then exponent - n else exponent + n) rest
      | .error rest =>
        if significand != 0 && !down then .error (.before .numberTooLarge rest)
        else .ok (.real minus .zero, afterDigits rest)

/-- The text behind the letter of an exponent. -/
def exponentMark? : Text → Option Text
  | 'e' :: t => some t
  | 'E' :: t => some t
  | _ => none

/-- A number from its digits behind the point on. -/
def fractionPart (minus : Bool) (significand : Nat) (exponent : Int) (t : Text) : Outcome Number :=
  match digits t with
  | [] => .error (if t.isEmpty then .before .endInValue t else .behind .invalidNumber t)
  | ds =>
    let (n, left) := gatherDigits significand ds
    let e : Int := exponent - (ds.length - left : Nat)
    match exponentMark? (afterDigits t) with
    | some u => exponentPart minus n e u
    | none => realOf minus n e (afterDigits t)

def integer (minus : Bool) (n : Nat) : Number :=
  if !minus then .natural n
  else if n = 0 || Number.maxNegative < n then .real true ((Double.ofRatio? n 1).getD .zero)
  else .negative n

/-- A number from what follows its digits in front of the point on. -/
def afterInteger (minus : Bool) (significand left : Nat) (t : Text) : Outcome Number :=
  match t with
  | '.' :: u => fractionPart minus significand left u
  | _ =>
    match exponentMark? t with
    | some u => exponentPart minus significand left u
    | none =>
      if left = 0 then .ok (integer minus significand, t) else realOf minus significand left t

/-- The number at the front of a text. -/
def Number.read (minus : Bool) : Text → Outcome Number
  | [] => .error (.before .endInValue [])
  | c :: t =>
    if c = '0' then
      match t with
      | d :: _ =>
        if d.isDigit then .error (.behind .invalidNumber t) else afterInteger minus 0 0 t
      | [] => afterInteger minus 0 0 t
    else if c.isDigit then
      let (n, left) := gatherDigits (digitValue c) (digits t)
      afterInteger minus n left (afterDigits t)
    else .error (.behind .invalidNumber (c :: t))

/-- What follows an exponent. -/
def skipExponent (t : Text) : Except Fault Text :=
  match (exponentSign t).2 with
  | c :: u => if c.isDigit then .ok (afterDigits u) else .error (.behind .invalidNumber (c :: u))
  | [] => .error (.before .invalidNumber [])

/-- What follows the rest of a number. -/
def skipExponentPart (t : Text) : Except Fault Text :=
  match exponentMark? t with
  | some u => skipExponent u
  | none => .ok t

/-- What follows the digits behind a point. -/
def skipFraction (t : Text) : Except Fault Text :=
  if (digits t).isEmpty then .error (.behind .invalidNumber t) else skipExponentPart (afterDigits t)

/-- What follows the part of a number behind its integer. -/
def skipAfterInteger : Text → Except Fault Text
  | '.' :: t => skipFraction t
  | t => skipExponentPart t

/-- What follows the number at the front of a text. -/
def Number.skip : Text → Except Fault Text
  | [] => .error (.before .invalidNumber [])
  | c :: t =>
    if c = '0' then
      if (digits t).isEmpty then skipAfterInteger t else .error (.behind .invalidNumber t)
    else if c.isDigit then skipAfterInteger (afterDigits t)
    else .error (.behind .invalidNumber (c :: t))

end StorySuite.Json
