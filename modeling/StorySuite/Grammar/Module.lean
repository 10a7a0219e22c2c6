import StorySuite.Grammar.Statement

/-!
# Modules

`rules` ties the knot of the grammar: what lies `n` levels deep is read by rules for `n - 1`
levels, and a text has no more levels than characters.  `parseModule` reads statement after
statement and never fails: what is no statement becomes an error between those that are, or around
them all.

A statement that stops at a token is given up to there, and reading goes on with that token.  Two
cases keep more of it.  A token that begins no statement is an error of its own.  A variable
declaration that stops at its semicolon keeps its declarators, the unfinished one without its
value.

A text can end while brackets are open.  To end the module there, reading goes back to where the
first of them stands, but it does not go back over as many as `openLimit`.  Then there is no module:
everything that was read stands in an error, and the brackets are no nodes of it.
-/

namespace StorySuite.Grammar

open Grammar.Parser

/-- The rules for texts that are nested at most `n` levels deep. -/
def rules (elements : Bool) : Nat → Rules
  | 0 => ⟨elements, fun _ => fail, fun _ => fail, fail, fun _ => fail, fail⟩
  | n + 1 =>
    let g := rules elements n
    ⟨elements, g.fullExpression, g.wholeOperand, g.wholeElement, g.fullType, g.wholeStatement⟩

namespace Reader

/-- The reader at byte `n`, or at the first character after it. -/
def goTo (n : Nat) (r : Reader) : Reader := go r.limit r
where
  go : Nat → Reader → Reader
    | 0, r => r
    | k + 1, r => if r.offset < n && !r.rest.isEmpty then go k (r.advance 1) else r

/-- The reader after the next token, when nothing is known of what it belongs to. -/
def afterToken (r : Reader) : Reader :=
  let s := r.settle
  match Lexeme.name s.rest with
  | some n => s.advance n
  | none => s.advance 1

end Reader

/-- A variable declaration up to byte `stop`, where its semicolon stands: the declarators that are
complete, the name of the one that is not, and what has to be left out. -/
def brokenVariables (g : Rules) (k : Kind) (stop : Nat) : Parser Node := node k do
  let _ ← name
  let ns ← loop (fun (acc : List Node) => do
    match ← optional (do
      let n ← g.declarator .variableDeclarator
      let _ ← mark ","
      return n) with
    | some n => return some (n :: acc)
    | none => return none) []
  let last ← perhaps <| one <| node .variableDeclarator do
    let t ← g.target
    let ty ← Parser.when (·.sees ":") (g.annotation .type)
    return t.withRole .name :: ty
  let dropped ← leftOut
  let _ ← mark ";"
  return ns.reverse ++ last ++ dropped
where
  /-- What stands between here and the semicolon, perhaps nothing. -/
  leftOut : Parser (List Node) := fun r =>
    let s := r.settle
    let u := s.goTo stop
    .done [Rules.misfit s.offset u.offset] { u with last := u.offset }

/-- The same for a declaration that is perhaps exported. -/
def brokenDeclaration (g : Rules) (stop : Nat) : Parser Node := do
  if ← look (·.seesWord "export") then
    node .exportStatement do
      let _ ← name
      let d ← plain
      return [d.withRole .declaration]
  else plain
where
  plain : Parser Node := do
    match ← look declarationAt? with
    | some (.variable k) => brokenVariables g k stop
    | _ => fail

/-- The error `e` after the nodes `acc` and the comments `ds`, the latest first.  It joins the error
in front of it, which takes up the comments between the two. -/
def pushError (e : Node) : List Node → List Node → List Node × List Node
  | .mk .error r s cs :: acc, ds =>
    let between := ds.takeWhile fun d => s.stop ≤ d.start
    (.mk .error r ⟨s.start, e.stop⟩ (cs ++ between.reverse) :: acc,
      ds.dropWhile fun d => s.stop ≤ d.start)
  | acc, ds => (e :: acc, ds)

/-- The error and the reader after a statement at `r` that stopped at `h`. -/
def giveUp (r : Reader) (h : Halt) : Node × Reader :=
  let s := r.settle
  if s.offset < h.last then
    (.mk .error .part ⟨s.offset, h.last⟩ [], { s.goTo h.offset with last := h.last })
  else
    let u := s.afterToken
    (.mk .error .part ⟨s.offset, u.offset⟩ [], { u with last := u.offset })

/-- All statements from `r` on, after those in `acc`, the latest first; with them the comments
between them.  The number bounds the statements. -/
def statements (g : Rules) : Nat → List Node → Reader → List Node × List Node
  | 0, acc, r => (acc.reverse, r.comments.reverse)
  | n + 1, acc, r =>
    let s := r.settle
    if s.rest.isEmpty then (acc.reverse, s.comments.reverse)
    else match g.wholeStatement s with
      | .done node u => statements g n (node :: acc) u
      | .halt h =>
        let broken := if (s.goTo h.offset).rest.head? = some ';' then brokenDeclaration g h.offset s
          else .halt h
        match broken with
        | .done node u => statements g n (node :: acc) u
        | .halt _ =>
          let (e, u) := giveUp s h
          let (acc, ds) := pushError e acc u.comments
          statements g n acc { u with comments := ds }

/-- The first line of a script, which says what runs it. -/
def scriptLine (r : Reader) : List Node × Reader :=
  if "#!".toList.isPrefixOf r.rest then
    let u := r.advance (r.rest.takeWhile fun c => c != '\n').length
    ([.mk .construct .part ⟨0, u.offset⟩ []], { u with last := u.offset })
  else ([], r)

/-- The number of open brackets that are too many to end a module behind them. -/
def openLimit : Nat := 16

/-- Whether a bracket opens that only another one closes. -/
def isOpening (c : Char) : Bool := c = '(' || c = '['

/-- Whether `n` is an error of open brackets alone, and of too many. -/
def leftOpen (t : Text) (n : Node) : Bool :=
  let brackets := (n.text t).filter fun c => !isBlank c
  n.kind = .error && brackets.all isOpening && openLimit ≤ brackets.length

/-- The tree of the text `t` with the statements and errors `ns`, and the comments between them. -/
def rootOf (t : Text) (ns comments : List Node) : Node :=
  if ns.getLast?.any (leftOpen t) then .mk .error .part ⟨0, t.size⟩ (weave ns.dropLast comments)
  else .mk .program .part ⟨0, t.size⟩ (weave ns comments)

/-- The tree of a module.  `elements` says whether the text may hold elements. -/
def parseModule (elements : Bool) (t : Text) : Node :=
  let (first, r) := scriptLine (Reader.start t)
  let g := rules elements (t.length + 2)
  let (ns, comments) := statements g r.limit first r
  rootOf t ns comments

end StorySuite.Grammar
