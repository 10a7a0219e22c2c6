import StorySuite.Grammar.Type
import StorySuite.Grammar.Element

/-!
# Expressions

An expression is a chain of operands with operators between them.  What binds closer to what does
not matter to where the expression ends, so the chain is read from left to right; only the
wrappers that a value may stand in keep a kind of their own: parentheses, `as`, `satisfies` and `!`.

An opening parenthesis may begin a parameter list.  Its contents are read once, in a form that
covers both, and what follows the closing one decides.

* `Rules.atom`             an operand without what may follow it;
* `Rules.postfixStep`      members, calls, indices and marks after an operand;
* `Rules.fullExpression`   the chain.
-/

namespace StorySuite.Grammar

open Grammar.Parser

/-- Words that open or join statements and are no operands. -/
def reservedWords : List Text :=
  ["break", "case", "catch", "const", "continue", "debugger", "default", "do", "else", "enum",
    "export", "extends", "finally", "for", "if", "in", "instanceof", "return", "switch", "throw",
    "try", "var", "while", "with"]

/-- Words that are values of their own. -/
def valueWords : List Text := ["this", "super", "null", "true", "false", "undefined", "import"]

/-- Words that are operators in front of an operand. -/
def unaryWords : List Text := ["typeof", "void", "delete", "await"]

/-- Operators that give a place a value. -/
def assigning : List Text :=
  [">>>=", ">>=", "<<=", "**=", "&&=", "||=", "??=", "+=", "-=", "*=", "/=", "%=", "^=", "&=",
    "|="]

/-- Operators between two operands, the longer before those they begin with. -/
def joining : List Text :=
  ["===", "!==", ">>>", "==", "!=", "<=", ">=", "<<", ">>", "&&", "||", "??", "**", "<", ">", "&",
    "|", "^", "+", "-", "*", "/", "%"]

/-- The first of `ws` that `t` begins with. -/
def firstOf? (ws : List Text) (t : Text) : Option Text := ws.find? fun w => w.isPrefixOf t

/-- Whether the question mark in front of `t` opens a conditional.  It does not where it marks
something optional or belongs to `?.` or `??`. -/
def opensConditional (t : Text) : Bool :=
  match t with
  | '?' :: _ => false
  | '.' :: _ => false
  | _ =>
    match t.dropWhile isAsciiBlank with
    | c :: _ => !([':', ')', ',', '='].contains c)
    | [] => true

/-- Whether an operand may begin with the next token. -/
def Reader.seesOperand (r : Reader) : Bool :=
  match r.settle.rest with
  | [] => false
  | c :: _ =>
    if isNameStart c || c = '\\' then !r.seesOneOf reservedWords
    else c.isDigit || ['(', '[', '{', '"', '\x27', '\x60', '+', '-', '!', '~', '/', '<', '#', '@'].contains c

namespace Rules

variable (g : Rules)

/-- Expressions with commas between them, as one node. -/
def sequence (line : Line) : Parser Node := do
  let n ← g.expression line
  if ← look fun r => !r.isEnded line && r.sees "," then
    grow .construct n do
      let _ ← mark ","
      sepBy (one (g.expression line)) (mark ",")
  else return n

/-- An expression, perhaps spread. -/
def spread : Parser (List Node) := do
  let _ ← optional (mark "...")
  one (g.expression .joined)

def arguments : Parser Node := node .construct do
  let _ ← mark "("
  sepUntil g.spread (mark ",") ")"

/-- An array, perhaps with gaps. -/
def array : Parser Node := node .construct do
  let _ ← mark "["
  let ns ← loop (fun (acc : List (List Node)) => do
    if ← look (·.sees "]") then return none
    else if ← look (·.sees ",") then
      let _ ← mark ","
      return some acc
    else
      let ns ← g.spread
      if !(← look (·.sees "]")) then
        let _ ← mark ","
      return some (ns :: acc)) []
  let _ ← mark "]"
  return ns.reverse.flatten

/-! ## Functions and classes -/

/-- Type parameters, parameters and the type of the result. -/
def signature : Parser (List Node) := do
  let ts ← Parser.when (·.sees "<") g.typeParameters
  let ps ← g.parameters
  let ty ← Parser.when (·.sees ":") (g.annotation .type)
  return ts ++ ps ++ ty

/-- What follows the arrow of a function. -/
def arrowBody (line : Line) : Parser (List Node) := do
  let _ ← mark "=>"
  if ← look (·.sees "\x7b") then one g.block else one (g.expression line)

/-- A function with its parameters in parentheses and an arrow. -/
def arrow (line : Line) : Parser (List Node) := do
  let ts ← Parser.when (·.sees "<") g.typeParameters
  let ps ← g.parameters
  let ty ← Parser.when (·.sees ":") (g.annotation .joined)
  let b ← g.arrowBody line
  return ts ++ ps ++ ty ++ b

/-- A function after the word `function`, perhaps without a name. -/
def functionTail : Parser (List Node) := do
  let _ ← optional (mark "*")
  let n ← Parser.when (·.seesName) (one (leaf .construct name))
  let s ← g.signature
  return n ++ s

/-- Words in front of a member of a class or an object. -/
def modifierWords : List Text :=
  ["public", "private", "protected", "readonly", "static", "override", "abstract", "declare",
    "accessor", "async", "get", "set"]

/-- Whether the next token is a modifier of a member and no key itself. -/
def seesMemberWord (r : Reader) : Bool :=
  r.seesOneOf modifierWords && (r.afterWord.seesKey || r.afterWord.sees "*")

def modifiers : Parser Unit := do
  let _ ← loop (fun (_ : Unit) => do
    if ← look seesMemberWord then
      let _ ← name
      return some ()
    else return none) ()
  let _ ← optional (mark "*")

/-- The head and the body of a method. -/
def method : Parser (List Node) := do
  let _ ← optional (mark "?")
  let s ← g.signature
  let b ← g.block
  return s ++ [b]

/-- The end of a member of a class that has no body. -/
def fieldEnd (line : Line) : Parser Unit := do
  if ← look (·.sees ",") then
    let _ ← mark ","
  else semicolon line

/-- A member of a class that is neither a method nor an index: its type and its first value. -/
def field : Parser (List Node) := do
  let _ ← optional (mark "?" <|> markNot "!" ['='])
  let ty ← Parser.when (·.sees ":") (g.annotation .type)
  if ← look (·.seesNot "=" ['>', '=']) then
    let _ ← mark "="
    let v ← g.expression .value
    fieldEnd .value
    return ty ++ [v]
  else
    fieldEnd .type
    return ty

/-- A member of a class, after its decorators. -/
def classMember : Parser (List Node) := do
  if ← look fun r => r.seesWord "static" && r.afterWord.sees "\x7b" then
    let _ ← name
    one g.block
  else
    (do
      let _ ← loop (fun (_ : Unit) => do
        if ← look seesMemberWord then
          let _ ← name
          return some ()
        else return none) ()
      let ns ← g.indexMember
      fieldEnd .type
      return ns) <|> (do
    modifiers
    let k ← g.memberKey
    if ← look fun r => r.sees "(" || r.sees "<" ||
        (r.sees "?" && ((r.settle.advance 1).sees "(" || (r.settle.advance 1).sees "<")) then
      let _ ← optional (mark "?")
      let s ← g.signature
      if ← look (·.sees "\x7b") then
        let b ← g.block
        return k ++ s ++ [b]
      else
        fieldEnd .signature
        return k ++ s
    else
      let f ← g.field
      return k ++ f)

/-- What a class extends or implements. -/
def heritage : Parser (List Node) := do
  let es ← Parser.when (·.seesWord "extends") do
    let _ ← name
    sepBy (do
      let n ← g.operand .joined
      let ts ← Parser.when (·.sees "<") g.typeArguments
      return n :: ts) (mark ",")
  let is ← Parser.when (·.seesWord "implements") do
    let _ ← name
    sepBy (one (g.type .joined)) (mark ",")
  return es ++ is

/-- A class after the word `class`, perhaps without a name. -/
def classTail : Parser (List Node) := do
  let n ← Parser.when (fun r => r.seesName && !r.seesWord "extends" &&
    !(r.seesWord "implements" && !r.afterWord.sees "\x7b")) (one (leaf .construct name))
  let ts ← Parser.when (·.sees "<") g.typeParameters
  let h ← g.heritage
  let b ← node .construct do
    let _ ← mark "\x7b"
    let ns ← many (fun r => !r.sees "\x7d" && !r.atEnd) do
      if ← look (·.sees ";") then skip (mark ";")
      else
        let ds ← many (·.sees "@") g.decorator
        let m ← g.classMember
        return ds ++ m
    let _ ← mark "\x7d"
    return ns
  return n ++ ts ++ h ++ [b]

/-! ## Objects -/

def propertyKey : Parser Node := do
  if ← look (·.seesName) then leaf .propertyName name
  else node .construct g.memberKey

def property : Parser Node := do
  if ← look (·.sees "...") then
    node .construct do
      let _ ← mark "..."
      one (g.expression .joined)
  else if ← look fun r => seesMemberWord r || r.sees "*" then
    node .construct do
      modifiers
      let k ← g.propertyKey
      let m ← g.method
      return k :: m
  else nodeOf do
    let word ← look (·.seesName)
    let k ← g.propertyKey
    if ← look (·.sees ":") then
      let _ ← mark ":"
      let v ← g.expression .joined
      return (.pair, [k.withRole .key, v.withRole .value])
    else if ← look fun r => r.sees "(" || r.sees "<" || r.sees "?" then
      let m ← g.method
      return (.construct, k :: m)
    else
      let _ ← Parser.guard word
      let v ← Parser.when (·.seesNot "=" ['>', '=']) do
        let _ ← mark "="
        one (g.expression .joined)
      return (.construct, v)

/-- The properties of an object and its closing brace. -/
def properties : Parser (List Node) := do
  let ns ← loop (fun (acc : List Node) => do
    if ← look (·.sees "\x7d") then return none
    else if ← look (·.sees ",") then
      let _ ← mark ","
      return some acc
    else
      let n ← g.property
      if !(← look (·.sees "\x7d")) then
        let _ ← mark ","
      return some (n :: acc)) []
  let _ ← mark "\x7d"
  return ns.reverse

def objectOf : Parser Node := node .object do
  let _ ← mark "\x7b"
  g.properties

/-! ## Parentheses -/

/-- What a pair of parentheses holds, item by item, and whether that can only be parameters. -/
structure Cover where
  items : List (List Node)
  onlyParameters : Bool

/-- The contents of parentheses: expressions, or parameters with their types and marks. -/
def cover : Parser Cover := do
  let _ ← mark "("
  let c ← loop (fun (c : Cover) => do
    if ← look (·.sees ")") then return none
    else
      let ds ← many (·.sees "@") g.decorator
      let rest ← optional (mark "...")
      let n ← g.expression .joined
      let question ← optional (mark "?")
      let ty ← Parser.when (·.sees ":") (g.annotation .joined)
      let v ← Parser.when (·.seesNot "=" ['>', '=']) do
        let _ ← mark "="
        one (g.expression .joined)
      let comma ← look (·.sees ",")
      if !(← look (·.sees ")")) then
        let _ ← mark ","
      let trailing := comma && (← look (·.sees ")"))
      return some ⟨(ds ++ n :: ty ++ v) :: c.items,
        c.onlyParameters || trailing || rest.isSome || question.isSome || !v.isEmpty
          || !ds.isEmpty⟩)
    ⟨[], false⟩
  let _ ← mark ")"
  return ⟨c.items.reverse, c.onlyParameters⟩

/-- What the parentheses of `c` are around, if they hold no parameters: one expression, perhaps with
a type, or several, which are no wrapper of any of them. -/
def Cover.contents? (c : Cover) : Option (Kind × List Node) :=
  if c.onlyParameters then none
  else match c.items with
    | [] => none
    | [ns] => some (.parenthesizedExpression, ns)
    | items =>
      if items.all fun ns => ns.length = 1 then some (.construct, items.flatten) else none

/-- An expression in parentheses, or a function whose parameters they hold. -/
def parentheses (line : Line) : Parser Node := nodeOf do
  let c ← g.cover
  if ← look (·.sees "=>") then
    let b ← g.arrowBody line
    return (.construct, c.items.flatten ++ b)
  else
    (do
      let ty ← g.annotation .joined
      let b ← g.arrowBody line
      let _ ← Parser.guard (line != .branch || (← look (·.sees ":")))
      return (.construct, c.items.flatten ++ ty ++ b)) <|> (do
    match c.contents? with
    | some content => return content
    | none => fail)

/-! ## Operands -/

/-- A function that is marked asynchronous. -/
def asynchronous (line : Line) : Parser Node := node .construct do
  let _ ← word "async"
  if ← look (·.seesWord "function") then
    let _ ← name
    let f ← g.functionTail
    let b ← g.block
    return f ++ [b]
  else if ← look (·.seesName) then
    let n ← leaf .construct name
    let b ← g.arrowBody line
    return n :: b
  else g.arrow line

/-- What is made by `new`. -/
def creation : Parser Node := node .construct do
  let _ ← word "new"
  if ← look (·.sees ".") then
    let _ ← mark "."
    skip name
  else
    let n ← maker
    let ts ← Parser.when (·.sees "<") (perhaps g.typeArguments)
    let as ← Parser.when (·.sees "(") (one g.arguments)
    return n ++ ts ++ as
where
  /-- What is called by `new`. -/
  called : Parser Node := do
    if ← look (·.sees "(") then
      node .construct do
        let _ ← mark "("
        let n ← g.sequence .joined
        let _ ← mark ")"
        return [n]
    else if ← look fun r => r.seesName && !r.seesOneOf ["class", "function", "new"] then
      leaf .construct name
    else g.operand .joined
  /-- What stands between `new` and the arguments. -/
  maker : Parser (List Node) := do
    let n ← called
    let ms ← loop (fun (acc : List Node) => do
      if ← look (·.seesNot "." ['.']) then
        let _ ← mark "."
        let _ ← optional (mark "#")
        let _ ← name
        return some acc
      else if ← look (·.sees "[") then
        let _ ← mark "["
        let n ← g.sequence .joined
        let _ ← mark "]"
        return some (n :: acc)
      else if ← look (·.seesNot "!" ['=']) then
        let _ ← mark "!"
        return some acc
      else return none) []
    return n :: ms.reverse

/-- An operand that begins with a word. -/
def wordAtom (line : Line) : Parser Node := do
  let w ← look (·.word)
  let after ← look (·.afterWord)
  if reservedWords.contains w then fail
  else if w = "function".toList then
    node .construct do
      let _ ← name
      let f ← g.functionTail
      let b ← g.block
      return f ++ [b]
  else if w = "class".toList then
    node .construct do
      let _ ← name
      g.classTail
  else if w = "new".toList then g.creation
  else if after.sees "=>" then
    node .construct do
      let n ← leaf .construct name
      let b ← g.arrowBody line
      return n :: b
  else if w = "async".toList && (after.seesName || after.sees "(" || after.sees "<") then
    g.asynchronous line <|> leaf .identifier name
  else if valueWords.contains w then leaf .construct name
  else leaf .identifier name

/-- An element, a generic function or an operand with its type in front. -/
def angle (line : Line) : Parser Node :=
  if g.elements then g.element <|> node .construct (g.arrow line)
  else node .construct (g.arrow line) <|> node .construct do
    let ts ← g.typeArguments
    let _ ← many (fun r => r.sees "!" || r.sees "~" || r.sees "+" || r.sees "-") (skip
      (mark "!" <|> mark "~" <|> mark "+" <|> mark "-"))
    let n ← g.operand line
    return ts ++ [n]

/-- An operand without what may follow it. -/
def atom (line : Line) : Parser Node := do
  match ← look (·.settle.rest) with
  | '(' :: _ => g.parentheses line
  | '[' :: _ => g.array
  | '{' :: _ => g.objectOf
  | '\x60' :: _ => template (g.sequence .joined)
  | '"' :: _ => leaf .construct (token .string)
  | '\x27' :: _ => leaf .construct (token .string)
  | '/' :: _ => leaf .construct (token .regex)
  | '<' :: _ => g.angle line
  | '#' :: _ =>
    node .construct do
      let _ ← mark "#"
      skip (chars .name)
  | '@' :: _ =>
    node .construct do
      let ds ← many (·.sees "@") g.decorator
      let _ ← word "class"
      let c ← g.classTail
      return ds ++ c
  | c :: _ => if c.isDigit || c = '.' then leaf .construct (token .number) else g.wordAtom line
  | [] => fail

/-- Whether type arguments may end where `r` stands: in front of a call or of no operand at all. -/
def endsArguments (r : Reader) : Bool := r.sees "(" || r.sees "\x60" || !r.seesOperand

/-- What follows an operand, if something does. -/
def postfixStep (line : Line) (n : Node) : Parser (Option Node) := do
  if ← look (·.isEnded line) then return none
  else
    match ← look (·.settle.rest) with
    | '(' :: _ => some <$> grow .construct n (one g.arguments)
    | '[' :: _ =>
      some <$> grow .construct n do
        let _ ← mark "["
        let i ← g.sequence .joined
        let _ ← mark "]"
        return [i]
    | '\x60' :: _ => some <$> grow .construct n (one (template (g.sequence .joined)))
    | '.' :: c :: _ =>
      if c = '.' then return none
      else
        some <$> grow .construct n do
          let _ ← mark "."
          let _ ← optional (mark "#")
          skip name
    | '?' :: '.' :: c :: _ =>
      if c.isDigit then return none
      else
        some <$> grow .construct n do
          let _ ← mark "?."
          if ← look (·.sees "(") then one g.arguments
          else if ← look (·.sees "[") then
            let _ ← mark "["
            let i ← g.sequence .joined
            let _ ← mark "]"
            return [i]
          else if ← look (·.sees "<") then
            let ts ← g.typeArguments
            let as ← g.arguments
            return ts ++ [as]
          else
            let _ ← optional (mark "#")
            skip name
    | '!' :: c =>
      if List.isPrefixOf ['='] c then return none
      else some <$> grow .nonNullExpression n (skip (mark "!"))
    | '+' :: '+' :: _ => some <$> grow .construct n (skip (mark "++"))
    | '-' :: '-' :: _ => some <$> grow .construct n (skip (mark "--"))
    | '<' :: c =>
      if List.isPrefixOf ['='] c || List.isPrefixOf ['<'] c then return none
      else
        optional (grow .construct n do
          let ts ← g.typeArguments
          let _ ← Parser.guard (← look endsArguments)
          return ts)
    | _ => return none

/-- An operand with what follows it. -/
def wholeOperand (line : Line) : Parser Node := do
  let n ← g.atom line
  loop (g.postfixStep line) n

/-! ## Operators -/

/-- Whether an operator in front of an operand is next. -/
def seesUnary (r : Reader) : Bool :=
  r.sees "!" || r.sees "~" || r.sees "+" || r.sees "-" ||
    (r.seesOneOf unaryWords && !r.afterWord.sees "=>")

/-- An operand with the operators in front of it. -/
def unary (line : Line) : Parser Node := do
  if ← look seesUnary then
    node .construct do
      let _ ← many seesUnary (skip (mark "++" <|> mark "--" <|> mark "!" <|> mark "~" <|> mark "+"
        <|> mark "-" <|> name))
      one (g.wholeOperand line)
  else g.wholeOperand line

/-- What follows the word `yield`. -/
def yielded (line : Line) : Parser Node := node .construct do
  let _ ← word "yield"
  if ← look (·.sees "*") then
    let _ ← mark "*"
    one (g.expression line)
  else Parser.when (fun r => !r.isEnded line && r.seesOperand) (one (g.expression line))

/-- The type after `as` or `satisfies`. -/
def wrapped (line : Line) : Parser (List Node) := do
  let _ ← name
  if ← look (·.seesWord "const") then skip name else one (g.type line)

/-- What an operator joins to the chain `n`, if one follows. -/
def chainStep (line : Line) (n : Node) : Parser (Option Node) := do
  if ← look (·.isEnded line) then return none
  else
    let t ← look (·.settle.rest)
    let w ← look (·.word)
    if w = "as".toList then some <$> grow .asExpression n (g.wrapped line)
    else if w = "satisfies".toList then some <$> grow .satisfiesExpression n (g.wrapped line)
    else if w = "in".toList || w = "instanceof".toList then
      some <$> grow .construct n do
        let _ ← name
        one (g.unary line)
    else match firstOf? assigning t with
      | some o =>
        some <$> grow .construct n do
          let _ ← mark o
          one (g.expression line)
      | none =>
        match firstOf? joining t with
        | some o =>
          some <$> grow .construct n do
            let _ ← mark o
            one (g.unary line)
        | none =>
          match t with
          | '=' :: u =>
            if List.isPrefixOf ['>'] u then return none
            else
              some <$> grow .construct n do
                let _ ← mark "="
                one (g.expression line)
          | '?' :: u =>
            if opensConditional u then
              some <$> grow .construct n do
                let _ ← mark "?"
                let a ← g.expression .branch
                let _ ← mark ":"
                let b ← g.expression line
                return [a, b]
            else return none
          | _ => return none

/-- An expression without commas. -/
def fullExpression (line : Line) : Parser Node := do
  if ← look fun r => r.seesWord "yield" && !r.afterWord.sees "=>" then g.yielded line
  else
    let n ← g.unary line
    loop (g.chainStep line) n

end Rules

end StorySuite.Grammar
