import StorySuite.Grammar.Reader

/-!
# Statements without a semicolon

A statement may end without its semicolon at the end of the text, before a closing brace, or at a
line break after which no character stands that could carry it on.  Only the characters after the
gap are looked at, and never whether the next line would be read at all: a line that begins with
a word ends the statement, also where the word is an operator such as `as`.

The gap begins right after a token or a comment.  Where a comment stands on the line, it lies
before the end of the statement, which therefore covers it.

* `endsHere line t`      whether a statement may end in front of `t`;
* `Reader.ended? line r` the reader at the end of the statement, if it ends before its next token;
* `semicolon line`       the end of a statement, with its semicolon or without.
-/

namespace StorySuite.Grammar

/-- What a line break means, where an operand or a type has just ended. -/
inductive Line where
  /-- Nothing: a bracket is still open. -/
  | joined
  /-- Nothing: the first branch of a conditional is open, and its colon is still to come. -/
  | branch
  /-- An expression may end here, and a bracket on the next line carries it on. -/
  | value
  /-- Something may end here that no bracket on the next line carries on. -/
  | type
  /-- The head of a function may end here, unless a body follows. -/
  | signature
  deriving DecidableEq, Repr, Inhabited

/-- Whether something may end at the line break. -/
def Line.mayEnd : Line → Bool
  | .joined | .branch => false
  | .value | .type | .signature => true

/-- A text without its first line. -/
def afterLine : Text → Text
  | [] => []
  | '\n' :: t => '\n' :: t
  | _ :: t => afterLine t

/-- A text after the end of a block comment; an open comment takes everything. -/
def afterBlock : Text → Text
  | [] => []
  | '*' :: '/' :: t => t
  | _ :: t => afterBlock t

/-- A text after its ASCII blanks and comments; none if it goes on with a slash.  The number
bounds the comments that are read over. -/
def afterGap : Nat → Text → Option Text
  | 0, t => some t
  | n + 1, t =>
    match t.dropWhile isAsciiBlank with
    | '/' :: '/' :: u => afterGap n (afterLine u)
    | '/' :: '*' :: u => afterGap n (afterBlock u)
    | '/' :: _ => none
    | u => some u

def letterNext : Text → Bool
  | c :: _ => c.isAlpha
  | [] => false

/-- Whether a line that begins with `t` cannot carry on what stands before it. -/
def startsAnew (line : Line) : Text → Bool
  | [] => true
  | c :: t =>
    if ['\x60', ',', '.', ';', '*', '%', '>', '<', '=', '?', '^', '|', '&', '/', ':'].contains c
    then false
    else match c with
      | '{' => line != .signature
      | '(' | '[' => line != .value
      | '+' => List.isPrefixOf ['+'] t
      | '-' => List.isPrefixOf ['-'] t
      | '!' => !List.isPrefixOf ['='] t
      | 'i' =>
        match t with
        | 'n' :: u =>
          if !letterNext u then false
          else if "stanceof".toList.isPrefixOf u then letterNext (List.drop 8 u)
          else true
        | _ => true
      | _ => true

/-- Whether a statement may end in front of `t`. -/
def endsHere (line : Line) (t : Text) : Bool := line.mayEnd && go t
where
  go : Text → Bool
    | [] => true
    | c :: t =>
      if c.toNat = 0 then true
      else if c = '}' then
        match t.dropWhile isAsciiBlank with
        | ':' :: _ => line = .value
        | _ => true
      else if c = '\n' then
        match afterGap (t.length + 1) t with
        | some u => startsAnew line u
        | none => false
      else isAsciiBlank c && go t

/-- The reader at the end of the statement, if it ends before the next token. -/
def Reader.ended? (line : Line) (r : Reader) : Option Reader := go r.limit r
where
  go : Nat → Reader → Option Reader
    | 0, _ => none
    | n + 1, r =>
      if endsHere line r.rest then some { r with last := r.offset }
      else
        let s := r.skipBlanks
        match Lexeme.comment s.rest with
        | some k => go n (s.keepComment k)
        | none => none

/-- Whether the statement ends before the next token. -/
def Reader.isEnded (line : Line) (r : Reader) : Bool := line.mayEnd && (r.ended? line).isSome

namespace Parser

/-- The end of a statement. -/
def semicolon (line : Line) : Parser Unit := fun r =>
  match r.ended? line with
  | some s => .done () s
  | none => (do let _ ← mark ";"; return ()) r

/-- The end of a statement, where it may also go on. -/
def maybeEnded (line : Line) : Parser Unit := fun r =>
  match r.ended? line with
  | some s => .done () s
  | none => .done () r

end Parser

end StorySuite.Grammar
