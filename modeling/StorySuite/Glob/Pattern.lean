import StorySuite.Text.Basic

/-!
# Glob patterns

A pattern is a list of tokens: characters, `?`, `*`, classes in brackets, and `**`, which stands
for whole directories and has to stand between slashes.  `Pattern.ofText` reads one, or says where
and why it cannot be read; a position counts characters.
-/

namespace StorySuite.Glob

/-- A character class: the ranges that a character may lie in. -/
abbrev CharSet := List (Char × Char)

/-- Whether `c` lies in one of the ranges. -/
def CharSet.has (s : CharSet) (c : Char) : Bool := s.any fun r => r.1 ≤ c && c ≤ r.2

/-- A part of a pattern. -/
inductive Token where
  | char (c : Char)
  | anyChar
  | anySequence
  | anyDirectories
  | within (s : CharSet)
  | except (s : CharSet)
  deriving DecidableEq, Repr

/-- Why a text is no pattern. -/
inductive PatternError where
  | wildcards (pos : Nat)
  | recursiveWildcards (pos : Nat)
  | invalidRange (pos : Nat)
  deriving DecidableEq, Repr

namespace PatternError

def pos : PatternError → Nat
  | wildcards p | recursiveWildcards p | invalidRange p => p

def reason : PatternError → Text
  | wildcards _ => "wildcards are either regular \x60*\x60 or recursive \x60**\x60"
  | recursiveWildcards _ => "recursive wildcards must form a single path component"
  | invalidRange _ => "invalid range pattern"

def message (e : PatternError) : Text :=
  "Pattern syntax error near position " ++ Text.ofNat e.pos ++ ": " ++ e.reason

end PatternError

abbrev Pattern := List Token

namespace Pattern

/-- The ranges between two brackets. -/
def ranges : Text → CharSet
  | a :: '-' :: b :: t => (a, b) :: ranges t
  | a :: t => (a, a) :: ranges t
  | [] => []

/-- The class that a bracket opens, and the number of characters up to the one that closes it: the
first character always belongs to the class. -/
def class? : Text → Option (Token × Nat)
  | '!' :: c :: t =>
    if t.contains ']' then
      let inner := c :: t.takeWhile (· != ']')
      some (.except (ranges inner), inner.length + 2)
    else none
  | '!' :: [] => none
  | c :: t =>
    if t.contains ']' then
      let inner := c :: t.takeWhile (· != ']')
      some (.within (ranges inner), inner.length + 1)
    else none
  | [] => none

/-- Whether a token for directories adds something behind the tokens `acc`, the latest first. -/
def addsDirectories (acc : Pattern) : Bool :=
  !(1 < acc.length && acc.head? = some .anyDirectories)

/-- The pattern at the front of a text behind the character `before`, at position `pos`; the tokens
so far are `acc`, the latest first.  The first number bounds the tokens. -/
def read : Nat → Nat → Option Char → Pattern → Text → Except PatternError Pattern
  | _, _, _, acc, [] => .ok acc.reverse
  | 0, _, _, acc, _ => .ok acc.reverse
  | n + 1, pos, before, acc, c :: t =>
    if c = '?' then read n (pos + 1) (some c) (.anyChar :: acc) t
    else if c = '*' then
      let stars := (t.takeWhile (· = '*')).length + 1
      let rest := t.drop (stars - 1)
      if 2 < stars then .error (.wildcards (pos + 2))
      else if stars = 2 then
        let acc' := if addsDirectories acc then .anyDirectories :: acc else acc
        if before.all (· = '/') then
          match rest with
          | '/' :: u => read n (pos + 3) (some '/') acc' u
          | [] => read n (pos + 2) (some '*') acc' []
          | _ => .error (.recursiveWildcards (pos + 2))
        else .error (.recursiveWildcards (pos - 1))
      else read n (pos + 1) (some c) (.anySequence :: acc) rest
    else if c = '[' then
      match class? t with
      | some (tok, k) => read n (pos + 1 + k) (some ']') (tok :: acc) (t.drop k)
      | none => .error (.invalidRange pos)
    else read n (pos + 1) (some c) (.char c :: acc) t

def ofText (t : Text) : Except PatternError Pattern := read (t.length + 1) 0 none [] t

end Pattern

end StorySuite.Glob
