import StorySuite.Grammar.Expression

/-!
# Statements

`Rules.declaration` reads what gives a name a meaning, `Rules.exportStatement` the forms of
`export`, and `Rules.wholeStatement` every statement.  Which one a statement is hangs on its first
words, never on how its rest would be read.

The children of an export statement carry what a reader of exports asks for: the keywords
`default` and `type`, the clause with its specifiers, and the roles `value`, `declaration` and
`source`.
-/

namespace StorySuite.Grammar

open Grammar.Parser

/-- Words after which a name is an operand of an operator and not the name of a declaration. -/
def operatorWords : List Text := ["in", "instanceof", "as", "satisfies"]

/-- Whether a name is next that a declaration may give. -/
def Reader.seesNewName (r : Reader) : Bool := r.seesName && !r.seesOneOf operatorWords

/-- Whether a string is next. -/
def Reader.seesString (r : Reader) : Bool := r.sees "\"" || r.sees "\x27"

/-- Words that open a variable declaration. -/
def variableWords : List Text := ["const", "let", "var"]

inductive Declaration where
  | variable (kind : Kind)
  | function | asyncFunction | ordinaryClass | abstractClass | interface | enum | constEnum | typeAlias
  | namespace | module | ambient | import
  deriving DecidableEq, Repr

/-- Which declaration begins with the next words, if one does. -/
def declarationAt? (r : Reader) : Option Declaration :=
  let w := r.word
  let after := r.afterWord
  if w = "const".toList then
    if after.seesWord "enum" then some .constEnum else some (.variable .lexicalDeclaration)
  else if w = "let".toList then
    if after.seesNewName || after.sees "[" || after.sees "\x7b" then some (.variable .lexicalDeclaration)
    else none
  else if w = "var".toList then some (.variable .variableDeclaration)
  else if w = "function".toList then some .function
  else if w = "async".toList then
    if after.seesWord "function" then some .asyncFunction else none
  else if w = "class".toList then some .ordinaryClass
  else if w = "abstract".toList then
    if after.seesWord "class" then some .abstractClass else none
  else if w = "interface".toList then
    if after.seesNewName then some .interface else none
  else if w = "enum".toList then some .enum
  else if w = "type".toList then
    if after.seesName && (after.afterWord.sees "=" || after.afterWord.sees "<") then some .typeAlias
    else none
  else if w = "namespace".toList then
    if after.seesNewName then some .namespace else none
  else if w = "module".toList then
    if after.seesNewName || after.seesString then some .module else none
  else if w = "declare".toList then
    if after.seesOneOf ["const", "let", "var", "function", "async", "class", "abstract", "interface",
      "enum", "type", "namespace", "module", "global"] then some .ambient else none
  else if w = "import".toList then
    if after.seesName && after.afterWord.sees "=" then some .import else none
  else none

namespace Rules

variable (g : Rules)

/-! ## Declarations -/

/-- A declarator of kind `k`: what is bound, its type and its first value. -/
def declarator (k : Kind) : Parser Node := node k do
  let t ← g.target
  let _ ← optional (markNot "!" ['='])
  let ty ← Parser.when (·.sees ":") (g.annotation .type)
  let v ← Parser.when (·.seesNot "=" ['>', '=']) do
    let _ ← mark "="
    one (Node.withRole .value <$> g.expression .value)
  return t.withRole .name :: ty ++ v

/-- Where a declaration may end that ends with the declarator `n`. -/
def lineAfter (n : Option Node) : Line :=
  match n.bind (Node.child? .value) with
  | some _ => .value
  | none => .type

def declarators : Parser (List Node) := sepBy (one (g.declarator .variableDeclarator)) (mark ",")

/-- Variables that are disposed of at the end of their block.  They are no exports. -/
def disposed : Parser Node := node .construct do
  let _ ← optional (word "await")
  let _ ← word "using"
  let ns ← sepBy (one (g.declarator .construct)) (mark ",")
  semicolon (lineAfter ns.getLast?)
  return ns

/-- A variable declaration of kind `k`. -/
def variableList (k : Kind) : Parser Node := node k do
  let _ ← name
  let ns ← g.declarators
  semicolon (lineAfter ns.getLast?)
  return ns

/-- A function with its name, or its head alone. -/
def functionDeclaration : Parser Node := node .construct do
  let _ ← optional (word "async")
  let _ ← word "function"
  let _ ← optional (mark "*")
  let n ← leaf .construct name
  let s ← g.signature
  if ← look (·.sees "\x7b") then
    let b ← g.block
    maybeEnded .value
    return n :: s ++ [b]
  else
    semicolon .signature
    return n :: s

/-- A class with its name. -/
def classDeclaration : Parser Node := node .construct do
  let ds ← many (·.sees "@") g.decorator
  let abstract ← optional (word "abstract")
  let _ ← word "class"
  let _ ← Parser.guard (← look (·.seesName))
  let c ← g.classTail
  if abstract.isNone then maybeEnded .value
  return ds ++ c

def interface : Parser Node := node .construct do
  let _ ← word "interface"
  let n ← leaf .construct name
  let ts ← Parser.when (·.sees "<") g.typeParameters
  let es ← Parser.when (·.seesWord "extends") do
    let _ ← name
    sepBy (one (g.type .joined)) (mark ",")
  let b ← node .construct g.members
  return n :: ts ++ es ++ [b]

def enumMember : Parser (List Node) := do
  let k ← g.propertyKey
  let v ← Parser.when (·.sees "=") do
    let _ ← mark "="
    one (g.expression .joined)
  return k :: v

def enumeration : Parser Node := node .construct do
  let _ ← optional (word "const")
  let _ ← word "enum"
  let n ← leaf .construct name
  let b ← node .construct do
    let _ ← mark "\x7b"
    sepUntil g.enumMember (mark ",") "\x7d"
  return [n, b]

/-- A name for a type. -/
def typeAlias : Parser Node := node .construct do
  let _ ← word "type"
  let n ← leaf .construct name
  let ts ← Parser.when (·.sees "<") g.typeParameters
  let _ ← mark "="
  let t ← g.type .type
  semicolon .type
  return n :: ts ++ [t]

/-- A namespace or a module with its statements. -/
def moduleOf : Parser Node := node .construct do
  let _ ← word "namespace" <|> word "module"
  if ← look (·.seesString) then
    let _ ← token .string
  else
    let _ ← sepBy (skip name) (mark ".")
  Parser.when (·.sees "\x7b") (one g.block)

/-- A name for something in a namespace or another module. -/
def importAlias : Parser Node := node .construct do
  let _ ← word "import"
  let _ ← name
  let _ ← mark "="
  let n ← g.operand .value
  semicolon .value
  return [n]

/-- A declaration that `d` says begins here, an ambient one apart. -/
def plainDeclaration (d : Declaration) : Parser Node :=
  match d with
  | .variable k => g.variableList k
  | .function | .asyncFunction => g.functionDeclaration
  | .ordinaryClass | .abstractClass => g.classDeclaration
  | .interface => g.interface
  | .enum | .constEnum => g.enumeration
  | .typeAlias => g.typeAlias
  | .namespace | .module => g.moduleOf
  | .import => g.importAlias
  | .ambient => fail

/-- A declaration of something that is defined elsewhere. -/
def ambient : Parser Node := node .construct do
  let _ ← word "declare"
  if ← look fun r => r.seesWord "global" then
    let _ ← name
    one g.block
  else
    match ← look declarationAt? with
    | some d => one (g.plainDeclaration d)
    | none => fail

/-- The declaration that begins here. -/
def declaration : Parser Node := do
  match ← look declarationAt? with
  | some .ambient => g.ambient
  | some d => g.plainDeclaration d
  | none => fail

/-! ## Imports and exports -/

/-- The module that names come from, and what is said of it. -/
def source : Parser (List Node) := do
  let s ← leaf .construct (token .string)
  let attributes ← Parser.when (fun r => r.seesOneOf ["with", "assert"] && r.afterWord.sees "\x7b") do
    let _ ← name
    one g.objectOf
  return s.withRole .source :: attributes

/-- A name or a string in a clause. -/
def clauseName (r : Role) : Parser Node := do
  if ← look (·.seesString) then Node.withRole r <$> leaf .construct (token .string)
  else Node.withRole r <$> leaf .identifier name

/-- Words in front of a name of a clause that say that a type goes by it. -/
def typeMarks : List Text := ["type", "typeof"]

/-- What stands where nothing fits, from byte `start` to byte `stop`. -/
def misfit (start stop : Nat) : Node := .mk .error .part ⟨start, stop⟩ []

/-- A gap where something ought to stand. -/
def missing : Parser (List Node) := fun r =>
  .done [misfit r.offset r.offset] { r with last := r.offset }

/-- A mark in front of a name of a clause. -/
def typeMark : Parser (List Node) := do
  let typed ← look (·.seesWord "type")
  one (leaf (if typed then .typeKeyword else .construct) name)

/-- A name of an export, perhaps with another that it goes by.  A mark in front of it is never a
name itself, so one without a name after it leaves a gap. -/
def specifier : Parser (List Node) := one <| node .exportSpecifier do
  let marked ← look (·.seesOneOf typeMarks)
  let k ← Parser.when (·.seesOneOf typeMarks) typeMark
  if ← look fun r => marked && (r.sees "," || r.sees "\x7d") then
    let gap ← missing
    return k ++ gap
  else
    let n ← clauseName .name
    let a ← Parser.when (·.seesWord "as") do
      let _ ← name
      one (clauseName .asName)
    let rest ← Parser.when (fun r => marked && r.seesName) (one (leaf .error name))
    return k ++ n :: a ++ rest

/-- The names of exports in braces. -/
def clause : Parser Node := node .exportClause do
  let _ ← mark "\x7b"
  sepUntil specifier (mark ",") "\x7d"

/-- Whether the next word marks a name of an import as one of a type. -/
def seesTypeMark (r : Reader) : Bool :=
  let after := r.afterWord
  r.seesOneOf typeMarks &&
    if after.seesWord "as" then
      let next := after.afterWord
      next.sees "," || next.sees "\x7d" ||
        (next.seesWord "as" && (next.afterWord.seesName || next.afterWord.seesString))
    else after.seesName || after.seesString

/-- A name of an import, perhaps with another that it goes by. -/
def importSpecifier : Parser (List Node) := one <| node .construct do
  let _ ← Parser.when seesTypeMark (skip name)
  let n ← clauseName .part
  let a ← Parser.when (·.seesWord "as") do
    let _ ← name
    one (clauseName .part)
  return n :: a

def importNames : Parser Node := node .construct do
  let _ ← mark "\x7b"
  sepUntil importSpecifier (mark ",") "\x7d"

/-- A name for all that a module exports. -/
def everything : Parser (List Node) := do
  let _ ← mark "*"
  let _ ← word "as"
  one (clauseName .part)

/-- What an import takes from a module. -/
def importClause : Parser (List Node) := do
  if ← look (·.sees "\x7b") then one importNames
  else if ← look (·.sees "*") then everything
  else
    let n ← leaf .construct name
    let more ← Parser.when (·.sees ",") do
      let _ ← mark ","
      if ← look (·.sees "*") then everything else one importNames
    return n :: more

/-- Whether the next word says that types are imported. -/
def seesTypedImport (r : Reader) : Bool :=
  r.seesOneOf typeMarks &&
    (r.afterWord.sees "\x7b" || r.afterWord.sees "*" ||
      (r.afterWord.seesName && !(r.afterWord.seesWord "from" && !r.afterWord.afterWord.seesWord "from")))

/-- What an import takes, and where it takes it from. -/
def importParts : Parser (List Node) := do
  let c ← importClause
  if ← look (·.sees "=") then
    let _ ← mark "="
    let n ← g.operand .value
    semicolon .value
    return c ++ [n]
  else
    let _ ← word "from"
    let s ← g.source
    semicolon .type
    return c ++ s

def importStatement : Parser Node := node .construct do
  let _ ← word "import"
  if ← look (·.seesString) then
    let s ← g.source
    semicolon .type
    return s
  else
    let _ ← Parser.when seesTypedImport (skip name)
    g.importParts

/-- What follows `export default`. -/
def defaultExport : Parser (List Node) := do
  let k ← leaf .defaultKeyword (word "default")
  let declared := do
    let ds ← many (·.sees "@") g.decorator
    let d ← g.declaration
    return k :: ds ++ [d.withRole .declaration]
  let valued := do
    let v ← g.expression .value
    semicolon .value
    return [k, v.withRole .value]
  declared <|> valued

/-- What follows the word `export`. -/
def exported : Parser (List Node) := do
  let w ← look (·.word)
  let after ← look (·.afterWord)
  if w = "default".toList then g.defaultExport
  else if ← look (·.sees "*") then
    let n ← everything <|> skip (mark "*")
    let _ ← word "from"
    let s ← g.source
    semicolon .type
    return n ++ s
  else if ← look (·.sees "\x7b") then
    let c ← clause
    let s ← Parser.when (·.seesWord "from") do
      let _ ← name
      g.source
    semicolon .type
    return c :: s
  else if w = "type".toList && (after.sees "\x7b" || after.sees "*") then
    let k ← leaf .typeKeyword name
    let n ← if after.sees "*" then everything <|> skip (mark "*") else one clause
    let s ← Parser.when (·.seesWord "from") do
      let _ ← name
      g.source
    semicolon .type
    return k :: n ++ s
  else if ← look (·.seesNot "=" ['=', '>']) then
    let _ ← mark "="
    let n ← g.expression .value
    semicolon .value
    return [n]
  else if w = "as".toList && after.seesWord "namespace" then
    let _ ← name
    let _ ← name
    let n ← leaf .construct name
    semicolon .type
    return [n]
  else
    let ds ← many (·.sees "@") g.decorator
    let d ← g.declaration
    return ds ++ [d.withRole .declaration]

def exportStatement : Parser Node := node .exportStatement do
  let ds ← many (·.sees "@") g.decorator
  let _ ← word "export"
  let ns ← g.exported
  return ds ++ ns

/-! ## Control -/

def condition : Parser Node := node .construct do
  let _ ← mark "("
  let n ← g.sequence .joined
  let _ ← mark ")"
  return [n]

/-- The head of a loop over the members of something. -/
def overHead : Parser (List Node) := do
  let t ← overTarget
  let v ← Parser.when (·.seesNot "=" ['=', '>']) do
    let _ ← mark "="
    one (g.unary .joined)
  let _ ← word "in" <|> word "of"
  let n ← g.sequence .joined
  return t :: v ++ [n]
where
  /-- What is given each member. -/
  overTarget : Parser Node := do
    if ← look fun r => r.seesOneOf variableWords && !r.afterWord.seesOneOf ["in", "of"] then
      let _ ← name
      g.target
    else g.operand .joined

/-- The head of a loop with a counter. -/
def counterHead : Parser (List Node) := do
  let first ← counterStart
  let test ← Parser.when (fun r => !r.sees ";") (one (g.sequence .joined))
  let _ ← mark ";"
  let step ← Parser.when (fun r => !r.sees ")") (one (g.sequence .joined))
  return first ++ test ++ step
where
  /-- What is done first. -/
  counterStart : Parser (List Node) := do
    if ← look (·.sees ";") then skip (mark ";")
    else if ← look fun r => (declarationAt? r).isSome then
      one <| node .lexicalDeclaration do
        let _ ← name
        let ns ← g.declarators
        let _ ← mark ";"
        return ns
    else
      let n ← g.sequence .joined
      let _ ← mark ";"
      return [n]

/-- A loop with a head. -/
def forStatement : Parser Node := node .construct do
  let _ ← word "for"
  let _ ← optional (word "await")
  let _ ← mark "("
  let h ← g.overHead <|> g.counterHead
  let _ ← mark ")"
  let b ← g.statement
  return h ++ [b]

/-- A choice between two statements. -/
def ifStatement : Parser Node := node .construct do
  let _ ← word "if"
  let c ← g.condition
  let a ← g.statement
  let b ← Parser.when (·.seesWord "else") do
    let _ ← name
    one g.statement
  return c :: a :: b

/-- One case of a choice between values. -/
def switchCase : Parser (List Node) := one <| node .construct do
  let c ← label
  let _ ← mark ":"
  let ns ← many (fun r => !r.sees "\x7d" && !r.atEnd && !r.seesOneOf ["case", "default"])
    (one g.statement)
  return c ++ ns
where
  /-- The value that the case is for. -/
  label : Parser (List Node) := do
    if ← look (·.seesWord "default") then skip name
    else
      let _ ← word "case"
      one (g.sequence .joined)

/-- A choice between values. -/
def switchStatement : Parser Node := node .construct do
  let _ ← word "switch"
  let c ← g.condition
  let b ← node .construct do
    let _ ← mark "\x7b"
    let ns ← many (fun r => !r.sees "\x7d" && !r.atEnd) g.switchCase
    let _ ← mark "\x7d"
    return ns
  return [c, b]

/-- What follows the word `try`. -/
def tryStatement : Parser Node := node .construct do
  let _ ← word "try"
  let b ← g.block
  let c ← Parser.when (·.seesWord "catch") do
    let _ ← name
    let p ← Parser.when (·.sees "(") do
      let _ ← mark "("
      let t ← g.target
      let ty ← Parser.when (·.sees ":") (g.annotation .joined)
      let _ ← mark ")"
      return t :: ty
    let b ← g.block
    return p ++ [b]
  let f ← Parser.when (·.seesWord "finally") do
    let _ ← name
    one g.block
  return b :: c ++ f

/-- A word that leaves a function or a loop, with what it carries. -/
def leaving : Parser Node := node .construct do
  let _ ← name
  if ← look fun r => r.sees ";" || r.isEnded .type then
    semicolon .type
    return []
  else
    let n ← g.sequence .value
    semicolon .value
    return [n]

/-- A loop with its condition at the end. -/
def doStatement : Parser Node := node .construct do
  let _ ← word "do"
  let b ← g.statement
  let _ ← word "while"
  let c ← g.condition
  if ← look (·.sees ";") then
    let _ ← mark ";"
  else maybeEnded .value
  return [b, c]

def expressionStatement : Parser Node := node .construct do
  let n ← g.sequence .value
  semicolon .value
  return [n]

/-- A namespace as a statement, which ends like an expression. -/
def namespaceStatement : Parser Node := node .construct do
  let n ← g.moduleOf
  semicolon .value
  return [n]

/-- Words that open a statement, and are names where the statement ends behind them. -/
def openingNames : List Text :=
  ["export", "let", "async", "declare", "namespace", "module", "type"]

/-- Whether variables follow that are disposed of at the end of their block. -/
def seesDisposed (r : Reader) : Bool :=
  let r := if r.seesWord "await" then r.afterWord else r
  r.seesWord "using" && r.afterWord.seesNewName && !r.afterWord.isEnded .value &&
    !r.afterWord.seesWord "of"

/-- A statement with a word in front that says what it is. -/
def wordStatement : Parser Node := do
  let w ← look (·.word)
  let after ← look (·.afterWord)
  if openingNames.contains w && (after.isEnded .value || after.sees ";") then
    node .construct do
      let n ← leaf .identifier name
      semicolon .value
      return [n]
  else if ← look seesDisposed then g.disposed
  else if w = "export".toList then g.exportStatement
  else if w = "import".toList && !after.sees "(" && !after.sees "." then
    if ← look fun r => (declarationAt? r).isSome then g.importAlias else g.importStatement
  else if w = "if".toList then g.ifStatement
  else if w = "for".toList then g.forStatement
  else if w = "while".toList || w = "with".toList then
    node .construct do
      let _ ← name
      let c ← g.condition
      let b ← g.statement
      return [c, b]
  else if w = "do".toList then g.doStatement
  else if w = "switch".toList then g.switchStatement
  else if w = "try".toList then g.tryStatement
  else if ["return", "throw", "break", "continue", "debugger"].any fun (s : String) => w = s.toList then
    g.leaving
  else if after.sees ":" then
    node .construct do
      let _ ← name
      let _ ← mark ":"
      one g.statement
  else match ← look declarationAt? with
    | some .namespace => g.namespaceStatement
    | some _ => g.declaration
    | none => g.expressionStatement

def wholeStatement : Parser Node := do
  if ← look (·.sees "\x7b") then g.block
  else if ← look (·.sees ";") then leaf .construct (mark ";")
  else if ← look (·.sees "@") then g.exportStatement <|> g.classDeclaration
  else if ← look (·.seesName) then g.wordStatement
  else g.expressionStatement

end Rules

end StorySuite.Grammar
