import StorySuite.Grammar.Rules

/-!
# Elements

An element stands between an opening and a closing tag, or is one tag that closes itself.  The
text between the tags is taken as it is: neither blanks nor comments are read over in it, and only
a tag, a brace or a character reference ends a run of it.
-/

namespace StorySuite.Grammar

open Grammar.Parser

namespace Rules

variable (g : Rules)

def tagName : Parser Unit := do
  let _ ← token .elementName
  loop (fun (_ : Unit) => do
    if ← look fun r => r.sees "." || r.sees ":" then
      let _ ← mark "." <|> mark ":"
      let _ ← token .elementName
      return some ()
    else return none) ()

/-- An expression in braces, perhaps spread, perhaps missing. -/
def braced : Parser (List Node) := do
  let _ ← mark "\x7b"
  let _ ← optional (mark "...")
  let ns ← Parser.when (fun r => !r.sees "\x7d") (sepBy (one (g.expression .joined)) (mark ","))
  let _ ← mark "\x7d"
  return ns

def attributeOf : Parser (List Node) := do
  if ← look (·.sees "\x7b") then g.braced
  else
    tagName
    if ← look (·.sees "=") then
      let _ ← mark "="
      match ← look (·.settle.rest) with
      | '{' :: _ => g.braced
      | '<' :: _ => one g.element
      | _ => skip (token .quoted)
    else return []

/-- What stands between the tags. -/
def content : Parser (List Node) := do
  let ns ← loop (fun (acc : List (List Node)) => do
    match ← look (·.rest) with
    | [] => fail
    | '<' :: '/' :: _ => return none
    | '<' :: _ =>
      let n ← g.element
      return some ([n] :: acc)
    | '{' :: _ =>
      let ns ← g.braced
      return some (ns :: acc)
    | '&' :: _ =>
      let _ ← chars .reference
      return some acc
    | '>' :: _ => fail
    | '}' :: _ => fail
    | _ =>
      let _ ← chars fun t => some (Lexeme.elementChars t)
      return some acc) []
  return ns.reverse.flatten

/-- The content and the closing tag. -/
def closed : Parser (List Node) := do
  let _ ← mark ">"
  let ns ← g.content
  let _ ← chars (.exactly "</")
  if ← look (·.sees ">") then
    let _ ← mark ">"
    return ns
  else
    tagName
    let _ ← mark ">"
    return ns

def wholeElement : Parser Node := node .construct do
  let _ ← mark "<"
  if ← look (·.sees ">") then g.closed
  else
    tagName
    let ts ← Parser.when (·.sees "<") g.typeArguments
    let ats ← many (fun r => !r.sees "/" && !r.sees ">" && !r.atEnd) g.attributeOf
    if ← look (·.sees "/") then
      let _ ← mark "/"
      let _ ← mark ">"
      return ts ++ ats
    else
      let ns ← g.closed
      return ts ++ ats ++ ns

end Rules

end StorySuite.Grammar
