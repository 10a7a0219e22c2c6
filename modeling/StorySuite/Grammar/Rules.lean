import StorySuite.Grammar.Semicolon

/-!
# The rules that every construct shares

The grammar is one knot: a type holds parameters, a parameter holds an expression, an expression
holds statements.  `Rules` are the rules for what lies inside a construct; each construct is read
by a function of them, and `Grammar.Module` ties the knot as deep as a text can be nested.

Here are the constructs that types, expressions and statements have in common: names in binding
position, parameters, type parameters and arguments, templates.
-/

namespace StorySuite.Grammar

open Grammar.Parser

/-- How to read what lies inside a construct. -/
structure Rules where
  /-- Whether a `<` in front of an operand opens an element rather than a type. -/
  elements : Bool
  /-- An expression without commas. -/
  expression : Line → Parser Node
  /-- An operand without operators. -/
  operand : Line → Parser Node
  /-- An element between its tags. -/
  element : Parser Node
  type : Line → Parser Node
  statement : Parser Node

/-- The reader after the next name. -/
def Reader.afterWord (r : Reader) : Reader :=
  let s := r.settle
  match Lexeme.name s.rest with
  | some n => s.advance n
  | none => s

/-- Whether the next token is `w` and not the start of a longer mark that goes on with one of
`no`. -/
def Reader.seesNot (w : Text) (no : List Char) (r : Reader) : Bool :=
  (Lexeme.exactlyNot w no r.settle.rest).isSome

/-- Whether the next token can be the key of a property. -/
def Reader.seesKey (r : Reader) : Bool :=
  match r.settle.rest with
  | c :: t => isNameStart c || c.isDigit || ['"', '\x27', '[', '#', '\\'].contains c || (c = '.' && letterOrDigit t)
  | [] => false
where
  letterOrDigit : Text → Bool
    | c :: _ => c.isDigit
    | [] => false

/-- Whether the next token is a name. -/
def Reader.seesName (r : Reader) : Bool := (Lexeme.name r.settle.rest).isSome

namespace Parser

/-- The next token, of no further interest. -/
def skip (p : Parser Span) : Parser (List Node) := do
  let _ ← p
  return []

/-- `p` or nothing. -/
def perhaps (p : Parser (List Node)) : Parser (List Node) := fun r =>
  match p r with
  | .done ns s => .done ns s
  | .halt _ => .done [] r

/-- `p` where `b` holds of the place, or nothing. -/
def when (b : Reader → Bool) (p : Parser (List Node)) : Parser (List Node) := do
  if ← look b then p else return []

/-- `p` as a list of one. -/
def one (p : Parser Node) : Parser (List Node) := (fun n => [n]) <$> p

/-- A template with `inner` in its substitutions. -/
def template (inner : Parser Node) : Parser Node := node .construct do
  let _ ← mark "\x60"
  let ns ← loop (fun (acc : List Node) => do
    match ← look (·.rest) with
    | '\x60' :: _ => return none
    | '$' :: '{' :: _ =>
      let _ ← mark "$\x7b"
      let n ← inner
      let _ ← mark "\x7d"
      return some (n :: acc)
    | '\\' :: _ =>
      let _ ← chars .templateEscape
      return some acc
    | [] => fail
    | _ =>
      let _ ← chars fun t => some (Lexeme.templateChars t)
      return some acc) []
  let _ ← chars (.exactly "\x60")
  return ns.reverse

end Parser

namespace Rules

variable (g : Rules)

/-- What a declaration or a parameter binds: a name or a pattern. -/
def target : Parser Node := do
  if ← look fun r => r.sees "[" || r.sees "\x7b" then
    let n ← g.operand .joined
    return .mk .construct .part n.span n.children
  else leaf .identifier name

/-- The type after a colon. -/
def annotation (line : Line) : Parser (List Node) := do
  let _ ← mark ":"
  one (g.type line)

def typeParameter : Parser (List Node) := do
  let _ ← loop (fun (_ : Unit) => do
    if ← look fun r => r.seesOneOf ["const", "in", "out"] && r.afterWord.seesName
        && !r.afterWord.seesWord "extends" then
      let _ ← name
      return some ()
    else return none) ()
  let n ← leaf .construct name
  let bound ← Parser.when (·.seesWord "extends") do
    let _ ← name
    one (g.type .joined)
  let initial ← Parser.when (·.sees "=") do
    let _ ← mark "="
    one (g.type .joined)
  return n :: bound ++ initial

/-- Type parameters in angle brackets. -/
def typeParameters : Parser (List Node) := do
  let _ ← mark "<"
  sepUntil g.typeParameter (mark ",") ">"

/-- Type arguments in angle brackets. -/
def typeArguments : Parser (List Node) := do
  let _ ← markNot "<" ['<', '=']
  sepUntil (one (g.type .joined)) (mark ",") ">"

/-- A decorator: a name with members and calls, or anything in parentheses. -/
def decorator : Parser (List Node) := do
  let _ ← mark "@"
  one (g.operand .joined)

/-- Words in front of a parameter that say how it is kept. -/
def parameterWords : List Text :=
  ["public", "private", "protected", "readonly", "override"]

def parameter : Parser (List Node) := do
  let ds ← many (·.sees "@") g.decorator
  let _ ← loop (fun (_ : Unit) => do
    if ← look fun r => r.seesOneOf parameterWords &&
        (r.afterWord.seesName || r.afterWord.sees "[" || r.afterWord.sees "\x7b") then
      let _ ← name
      return some ()
    else return none) ()
  let _ ← optional (mark "...")
  let t ← g.target
  let _ ← optional (mark "?")
  let ty ← Parser.when (·.sees ":") (g.annotation .joined)
  let initial ← Parser.when (·.seesNot "=" ['>', '=']) do
    let _ ← mark "="
    one (g.expression .joined)
  return ds ++ t :: ty ++ initial

def parameters : Parser (List Node) := do
  let _ ← mark "("
  sepUntil g.parameter (mark ",") ")"

/-- Statements in braces.  The end of the block takes the end of a statement with it, where one
may end. -/
def block : Parser Node := node .construct do
  let _ ← mark "\x7b"
  let ns ← many (fun r => !r.sees "\x7d" && !r.atEnd) (one g.statement)
  let _ ← mark "\x7d"
  maybeEnded .value
  return ns

end Rules

end StorySuite.Grammar
