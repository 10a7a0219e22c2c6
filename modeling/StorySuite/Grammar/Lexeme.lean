import StorySuite.Grammar.Character

/-!
# Lexemes of TypeScript

A `Lexeme` measures how many characters at the front of a text make up one token of its class, or
says that none does.  Which lexeme is asked for hangs on the place in the grammar: a slash is a
division after an operand and opens a regular expression in front of one.
-/

namespace StorySuite.Grammar

/-- The number of characters of a token at the front of a text. -/
abbrev Lexeme := Text → Option Nat

namespace Lexeme

/-- Exactly the characters `w`. -/
def exactly (w : Text) : Lexeme := fun t => if w.isPrefixOf t then some w.length else none

/-- Exactly the characters `w`, and none of `no` after them. -/
def exactlyNot (w : Text) (no : List Char) : Lexeme := fun t =>
  if w.isPrefixOf t then
    match List.drop w.length t with
    | c :: _ => if no.contains c then none else some w.length
    | [] => some w.length
  else none

/-- An escape in a name, such as `\u0041`. -/
def nameEscape : Lexeme
  | '\\' :: 'u' :: '{' :: t =>
    let d := (t.takeWhile isHexDigit).length
    match List.drop d t with
    | '}' :: _ => if d = 0 then none else some (d + 4)
    | _ => none
  | '\\' :: 'u' :: t => if (List.take 4 t).length = 4 && (List.take 4 t).all isHexDigit then some 6 else none
  | _ => none

/-- The rest of a name: name characters and escapes, `skip` characters of an escape being still to
come. -/
def nameRest : Nat → Text → Nat
  | _, [] => 0
  | skip + 1, _ :: t => nameRest skip t + 1
  | 0, c :: t =>
    if isNameChar c then nameRest 0 t + 1
    else match nameEscape (c :: t) with
      | some n => nameRest (n - 1) t + 1
      | none => 0

/-- A name, keywords among them. -/
def name : Lexeme := fun t =>
  match t with
  | [] => none
  | c :: u =>
    if isNameStart c then some (nameRest 0 u + 1)
    else match nameEscape t with
      | some n => some (nameRest (n - 1) u + 1)
      | none => none

/-- Digits of one kind with underscores between them. -/
def digits (p : Char → Bool) (t : Text) : Nat := (t.takeWhile fun c => p c || c = '_').length

def exponent : Text → Nat
  | e :: s :: d :: t =>
    if e = 'e' || e = 'E' then
      if (s = '+' || s = '-') && d.isDigit then digits Char.isDigit t + 3
      else if s.isDigit then digits Char.isDigit (d :: t) + 2
      else 0
    else 0
  | [e, d] => if (e = 'e' || e = 'E') && d.isDigit then 2 else 0
  | _ => 0

/-- The `n` that marks a large integer. -/
def bigMark : Text → Nat
  | 'n' :: _ => 1
  | _ => 0

def number : Lexeme := fun t =>
  match t with
  | '0' :: b :: u =>
    if b = 'x' || b = 'X' then
      let d := digits isHexDigit u
      some (2 + d + bigMark (List.drop d u))
    else if b = 'o' || b = 'O' || b = 'b' || b = 'B' then
      let d := digits Char.isDigit u
      some (2 + d + bigMark (List.drop d u))
    else decimal t
  | _ => decimal t
where
  /-- Digits, a fraction and an exponent. -/
  decimal (t : Text) : Option Nat :=
    match t with
    | '.' :: d :: _ =>
      if d.isDigit then
        let f := digits Char.isDigit (List.drop 1 t)
        some (1 + f + exponent (List.drop (1 + f) t))
      else none
    | d :: _ =>
      if d.isDigit then
        let i := digits Char.isDigit t
        match List.drop i t with
        | 'n' :: _ => some (i + 1)
        | '.' :: u =>
          let f := digits Char.isDigit u
          some (i + 1 + f + exponent (List.drop f u))
        | u => some (i + exponent u)
      else none
    | [] => none

/-- The rest of a string up to its quote `q`, which is counted too; a line end breaks it off, and
so does a zero character. -/
def stringRest (q : Char) : Text → Option Nat
  | [] => none
  | '\\' :: '\r' :: '\n' :: t => (stringRest q t).map (· + 3)
  | '\\' :: _ :: t => (stringRest q t).map (· + 2)
  | c :: t =>
    if c = q then some 1
    else if c = '\n' || c = '\r' || c.toNat = 0 then none
    else (stringRest q t).map (· + 1)

/-- A string literal in single or double quotes. -/
def string : Lexeme
  | c :: t => if c = '"' || c = '\x27' then (stringRest c t).map (· + 1) else none
  | [] => none

/-- The rest of a quoted attribute of an element, which may run over lines. -/
def attributeRest (q : Char) : Text → Option Nat
  | [] => none
  | c :: t => if c = q then some 1 else (attributeRest q t).map (· + 1)

/-- A quoted attribute of an element. -/
def quoted : Lexeme
  | c :: t => if c = '"' || c = '\x27' then (attributeRest c t).map (· + 1) else none
  | [] => none

/-- The rest of a regular expression up to its slash, which is counted too; `inClass` says whether
a bracket is open. -/
def regexRest (inClass : Bool) : Text → Option Nat
  | [] => none
  | '\\' :: c :: t => if c = '\n' then none else (regexRest inClass t).map (· + 2)
  | c :: t =>
    if c = '\n' then none
    else if inClass then (regexRest (c != ']') t).map (· + 1)
    else if c = '/' then some 1
    else (regexRest (c = '[') t).map (· + 1)

/-- A regular expression literal with its flags. -/
def regex : Lexeme
  | '/' :: '/' :: _ => none
  | '/' :: '*' :: _ => none
  | '/' :: t =>
    (regexRest false t).map fun n =>
      n + 1 + ((List.drop n t).takeWhile fun c => 'a' ≤ c && c ≤ 'z').length
  | _ => none

/-- The characters of a template up to its end, an escape or a substitution. -/
def templateChars : Text → Nat
  | [] => 0
  | '$' :: '{' :: _ => 0
  | c :: t => if c = '\x60' || c = '\\' then 0 else templateChars t + 1

def templateEscape : Lexeme
  | '\\' :: '\r' :: '\n' :: _ => some 3
  | '\\' :: _ :: _ => some 2
  | _ => none

/-- The name of an element or of an attribute, which may hold hyphens. -/
def elementName : Lexeme := fun t =>
  match name t with
  | none => none
  | some n => some (n + ((List.drop n t).takeWhile fun c => isNameChar c || c = '-').length)

/-- The characters between the tags of an element. -/
def elementChars (t : Text) : Nat :=
  (t.takeWhile fun c => c != '<' && c != '>' && c != '{' && c != '}' && c != '&').length

/-- A character reference such as `&amp;`. -/
def reference : Lexeme
  | '&' :: t =>
    let d := (t.takeWhile fun c => c.isAlphanum || c = '#').length
    match List.drop d t with
    | ';' :: _ => if d = 0 then none else some (d + 2)
    | _ => none
  | _ => none

/-- The end of a block comment. -/
def blockRest : Text → Option Nat
  | [] => none
  | '*' :: '/' :: _ => some 2
  | _ :: t => (blockRest t).map (· + 1)

def comment : Lexeme
  | '/' :: '/' :: t => some (2 + (t.takeWhile fun c => !isLineEnd c).length)
  | '/' :: '*' :: t => (blockRest t).map (· + 2)
  | _ => none

def blanks (t : Text) : Nat := (t.takeWhile isBlank).length

end Lexeme

end StorySuite.Grammar
