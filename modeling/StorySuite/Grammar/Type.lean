import StorySuite.Grammar.Rules

/-!
# Types

A type is read for its extent only.  Where it ends is the whole question: at a line break that may
end the statement, or at the first token that carries no type on.

From the inside out: `Rules.simpleType` is a type without operators, `Rules.postfixType` adds
brackets, `Rules.unionType` the operators between types, and `Rules.fullType` the conditional.
-/

namespace StorySuite.Grammar

open Grammar.Parser

namespace Rules

variable (g : Rules)

def memberKey : Parser (List Node) := do
  match ← look (·.settle.rest) with
  | '[' :: _ =>
    let _ ← mark "["
    let n ← g.expression .joined
    let _ ← mark "]"
    return [n]
  | '"' :: _ => skip (token .string)
  | '\x27' :: _ => skip (token .string)
  | '#' :: _ =>
    let _ ← mark "#"
    skip (chars .name)
  | c :: _ => if c.isDigit || c = '.' then skip (token .number) else skip name
  | [] => fail

/-- The end of a member of an object type. -/
def memberEnd : Parser Unit := do
  if ← look (·.sees "\x7d") then return ()
  else if ← look (·.sees ",") then
    let _ ← mark ","
    return ()
  else semicolon .type

/-- What a member is, after its key: a method or a property with its type. -/
def memberTail : Parser (List Node) := do
  let _ ← optional (markNot "?" ['.'])
  let ts ← Parser.when (·.sees "<") g.typeParameters
  let ps ← Parser.when (·.sees "(") g.parameters
  let ty ← Parser.when (·.sees ":") (g.annotation .type)
  return ts ++ ps ++ ty

/-- `[key: T]: U` or `[K in T as U]: V`, with the marks that add or take away modifiers. -/
def indexMember : Parser (List Node) := do
  let _ ← optional (mark "+" <|> mark "-")
  let _ ← optional (word "readonly")
  let _ ← mark "["
  let _ ← name
  let ns ← (g.annotation .joined) <|> (do
    let _ ← word "in"
    let t ← g.type .joined
    let u ← Parser.when (·.seesWord "as") do
      let _ ← name
      one (g.type .joined)
    return t :: u)
  let _ ← mark "]"
  let _ ← optional (mark "+" <|> mark "-")
  let _ ← optional (mark "?")
  let ty ← Parser.when (·.sees ":") (g.annotation .type)
  return ns ++ ty

/-- Words in front of a member that say how it is used. -/
def memberWords : List Text :=
  ["public", "private", "protected", "readonly", "static", "override", "abstract", "declare",
    "accessor", "async", "get", "set", "export"]

/-- Whether the next token is a modifier and no key itself. -/
def seesModifier (r : Reader) : Bool :=
  r.seesOneOf memberWords && (r.afterWord.seesKey || r.afterWord.sees "*" || r.afterWord.sees "\x7b")

/-- A member of an object type. -/
def member : Parser (List Node) := do
  if ← look fun r => r.sees ";" || r.sees "," then
    let _ ← mark ";" <|> mark ","
    return []
  let ns ← g.indexMember <|> (do
    let _ ← loop (fun (_ : Unit) => do
      if ← look seesModifier then
        let _ ← name
        return some ()
      else return none) ()
    if ← look fun r => r.seesWord "new" && (r.afterWord.sees "(" || r.afterWord.sees "<") then
      let _ ← name
      g.memberTail
    else if ← look fun r => r.sees "(" || r.sees "<" then g.memberTail
    else
      let k ← g.memberKey
      let t ← g.memberTail
      return k ++ t)
  memberEnd
  return ns

/-- The members of an interface or of an object type. -/
def members : Parser (List Node) := do
  let _ ← mark "\x7b"
  let ns ← many (fun r => !r.sees "\x7d" && !r.atEnd) g.member
  let _ ← mark "\x7d"
  return ns

/-- An element of a tuple, perhaps named. -/
def tupleElement : Parser (List Node) := do
  let _ ← optional (mark "...")
  (do
    let _ ← name
    let _ ← optional (mark "?")
    g.annotation .joined) <|> (do
    let t ← g.type .joined
    let _ ← optional (mark "?")
    return [t])

/-- The arrow of a function type and its result. -/
def arrowResult (line : Line) : Parser (List Node) := do
  let _ ← mark "=>"
  one (g.type line)

/-- The parameters and the result of a function type. -/
def functionType (line : Line) : Parser (List Node) := do
  let ts ← Parser.when (·.sees "<") g.typeParameters
  let ps ← g.parameters
  let t ← g.arrowResult line
  return ts ++ ps ++ t

/-- A name with members and type arguments. -/
def namedType (line : Line) : Parser (List Node) := do
  let _ ← name
  let _ ← loop (fun (_ : Unit) => do
    if ← look fun r => !r.isEnded line && r.seesNot "." ['.'] then
      let _ ← mark "."
      let _ ← optional (mark "#")
      let _ ← name
      return some ()
    else return none) ()
  Parser.when (fun r => !r.isEnded line && r.sees "<") (perhaps g.typeArguments)

/-- The word that opens a type with an operator in front. -/
def typeWords : List Text := ["keyof", "unique", "readonly"]

/-- A type without operators after it. -/
def simpleType (line : Line) : Parser Node := node .construct do
  match ← look (·.settle.rest) with
  | '(' :: _ =>
    g.functionType line <|> (do
      let _ ← mark "("
      let t ← g.type .joined
      let _ ← mark ")"
      return [t])
  | '<' :: _ => g.functionType line
  | '[' :: _ =>
    let _ ← mark "["
    sepUntil g.tupleElement (mark ",") "]"
  | '{' :: _ => g.members
  | '"' :: _ => skip (token .string)
  | '\x27' :: _ => skip (token .string)
  | '\x60' :: _ => one (template (g.type .joined))
  | '-' :: _ =>
    let _ ← mark "-"
    skip (token .number)
  | c :: _ =>
    if c.isDigit then skip (token .number)
    else
      let w ← look (·.word)
      let after ← look (·.afterWord)
      if w = "new".toList || (w = "abstract".toList && after.seesWord "new") then
        let _ ← optional (word "abstract")
        let _ ← word "new"
        g.functionType line
      else if typeWords.contains w && (after.seesName || ['(', '[', '{'].any fun c => after.sees [c]) then
        let _ ← name
        let t ← g.type line
        return [t]
      else if w = "infer".toList && after.seesName then
        let _ ← name
        let _ ← name
        Parser.when (·.seesWord "extends") do
          let _ ← name
          one (g.type .joined)
      else if w = "typeof".toList then
        let _ ← name
        if ← look (·.seesWord "import") then one (g.type line) else g.namedType line
      else if w = "import".toList then
        let _ ← name
        let _ ← mark "("
        let t ← g.type .joined
        let _ ← perhaps do
          let _ ← mark ","
          one (g.expression .joined)
        let _ ← mark ")"
        let ns ← Parser.when (·.sees ".") do
          let _ ← mark "."
          g.namedType line
        return t :: ns
      else if w = "asserts".toList && after.seesName && !after.seesWord "is" then
        let _ ← name
        let _ ← name
        Parser.when (·.seesWord "is") do
          let _ ← name
          one (g.type line)
      else if after.seesWord "is" && !after.isEnded line then
        let _ ← name
        let _ ← name
        one (g.type line)
      else g.namedType line
  | [] => fail

/-- A type with brackets after it. -/
def postfixType (line : Line) : Parser Node := do
  let t ← g.simpleType line
  loop (fun (t : Node) => do
    if ← look fun r => !r.isEnded line && r.sees "[" then
      let u ← grow .construct t do
        let _ ← mark "["
        let ns ← Parser.when (fun r => !r.sees "]") (one (g.type .joined))
        let _ ← mark "]"
        return ns
      return some u
    else return none) t

/-- Types with `|` and `&` between them, and perhaps one in front. -/
def unionType (line : Line) : Parser Node := do
  if ← look fun r => r.seesNot "|" ['|'] || r.seesNot "&" ['&'] then
    node .construct do
      let _ ← mark "|" <|> mark "&"
      let t ← g.postfixType line
      one (more t)
  else
    let t ← g.postfixType line
    more t
where
  more (t : Node) : Parser Node :=
    loop (fun (t : Node) => do
      if ← look fun r => !r.isEnded line &&
          (r.seesNot "|" ['|', '='] || r.seesNot "&" ['&', '=']) then
        let u ← grow .construct t do
          let _ ← mark "|" <|> mark "&"
          one (g.postfixType line)
        return some u
      else return none) t

/-- A type, perhaps conditional. -/
def fullType (line : Line) : Parser Node := do
  let t ← g.unionType line
  if ← look fun r => !r.isEnded line && r.seesWord "extends" then
    (grow .construct t do
      let _ ← name
      let u ← g.unionType .joined
      let _ ← mark "?"
      let a ← g.type .joined
      let _ ← mark ":"
      let b ← g.type line
      return [u, a, b]) <|> Parser.pure t
  else return t

end Rules

end StorySuite.Grammar
