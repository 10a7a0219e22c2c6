import StorySuite.Tree.Basic
import StorySuite.Grammar.Lexeme

/-!
# Reading a text token by token

A `Reader` is a place in a text: what is left of it, its byte offset and where the last token
ended.  A `Parser` moves a reader forward or stops at the token that fits nowhere.

Comments are read over like blanks, and each becomes a child of the innermost node that it lies
in: `node` and `grow` collect the comments met between a node's first and last token.

* `token l`          the next token, of class `l`;
* `node k p`         what `p` reads, as one node of kind `k`;
* `grow k n p`       the same for a node whose first child `n` is read already;
* `p <|> q`          `q` from the same place, if `p` stops;
* `many`, `sepBy`    repetitions, bounded by the length of the text.
-/

namespace StorySuite.Grammar

/-- A place in a text. -/
structure Reader where
  /-- What is left of the text. -/
  rest : Text
  /-- The byte offset of `rest`. -/
  offset : Nat
  /-- The byte offset where the last token ended. -/
  last : Nat
  /-- The comments met since the innermost open node began, the latest first. -/
  comments : List Node
  /-- More than the number of tokens of the whole text. -/
  limit : Nat
  deriving Inhabited

/-- Where reading stopped: the offset of the token that does not fit, and where the last token
that did fit ended. -/
structure Halt where
  offset : Nat
  last : Nat
  deriving Inhabited

/-- What comes of reading. -/
inductive Outcome (α : Type) where
  | done (value : α) (next : Reader)
  | halt (stuck : Halt)

/-- A way of reading an `α`. -/
def Parser (α : Type) := Reader → Outcome α

namespace Reader

/-- The reader at the start of `t`. -/
def start (t : Text) : Reader := ⟨t, 0, 0, [], t.length + 1⟩

/-- `n` characters further. -/
def advance : Nat → Reader → Reader
  | 0, r => r
  | n + 1, r =>
    match r.rest with
    | [] => r
    | c :: t => advance n { r with rest := t, offset := r.offset + c.utf8Size }

def skipBlanks (r : Reader) : Reader := r.advance (Lexeme.blanks r.rest)

/-- Past a comment of `n` characters, which is kept. -/
def keepComment (n : Nat) (r : Reader) : Reader :=
  let s := r.advance n
  { s with comments := .mk .comment .part ⟨r.offset, s.offset⟩ [] :: r.comments }

/-- Past blanks and comments. -/
def settle (r : Reader) : Reader := go r.limit r
where
  go : Nat → Reader → Reader
    | 0, r => r
    | n + 1, r =>
      let s := r.skipBlanks
      match Lexeme.comment s.rest with
      | some k => go n (s.keepComment k)
      | none => s

/-- Whether nothing but blanks and comments is left. -/
def atEnd (r : Reader) : Bool := r.settle.rest.isEmpty

/-- The halt at the next token. -/
def stuck (r : Reader) : Halt := ⟨r.settle.offset, r.last⟩

/-- Whether the next token begins with `w`. -/
def sees (w : Text) (r : Reader) : Bool := w.isPrefixOf r.settle.rest

/-- The next token, when it is a name. -/
def word (r : Reader) : Text :=
  let s := r.settle
  match Lexeme.name s.rest with
  | some n => List.take n s.rest
  | none => []

/-- Whether the next token is the word `w`. -/
def seesWord (w : Text) (r : Reader) : Bool := r.word = w

/-- Whether the next token is one of the words `ws`. -/
def seesOneOf (ws : List Text) (r : Reader) : Bool := ws.contains r.word

end Reader

/-- The halt that got further. -/
def Halt.further (a b : Halt) : Halt := if a.offset < b.offset then b else a

namespace Parser

variable {α β : Type}

def pure (a : α) : Parser α := fun r => .done a r

def bind (p : Parser α) (f : α → Parser β) : Parser β := fun r =>
  match p r with
  | .done a s => f a s
  | .halt h => .halt h

/-- `q` from the same place, if `p` stops. -/
def orElse (p : Parser α) (q : Unit → Parser α) : Parser α := fun r =>
  match p r with
  | .done a s => .done a s
  | .halt h =>
    match q () r with
    | .done a s => .done a s
    | .halt k => .halt (h.further k)

instance : Monad Parser where
  pure := pure
  bind := bind

instance : OrElse (Parser α) := ⟨orElse⟩

/-- Reads nothing and stops. -/
def fail : Parser α := fun r => .halt r.stuck

/-- What `f` says of the place. -/
def look (f : Reader → β) : Parser β := fun r => .done (f r) r

/-- `p`, if it does not stop. -/
def optional (p : Parser α) : Parser (Option α) := (some <$> p) <|> Parser.pure none

/-- Reads on only where `b` holds. -/
def guard (b : Bool) : Parser Unit := if b then Parser.pure () else fail

/-- The next token, of class `l`, as the bytes it covers. -/
def token (l : Lexeme) : Parser Span := fun r =>
  let s := r.settle
  match l s.rest with
  | some (n + 1) =>
    let u := s.advance (n + 1)
    .done ⟨s.offset, u.offset⟩ { u with last := u.offset }
  | _ => .halt r.stuck

/-- The next characters, of class `l`, where neither blanks nor comments are read over. -/
def chars (l : Lexeme) : Parser Span := fun r =>
  match l r.rest with
  | some n =>
    let u := r.advance n
    .done ⟨r.offset, u.offset⟩ { u with last := u.offset }
  | none => .halt ⟨r.offset, r.last⟩

/-- The mark `w`. -/
def mark (w : Text) : Parser Span := token (.exactly w)

/-- The mark `w`, where it is no part of a longer one that goes on with one of `no`. -/
def markNot (w : Text) (no : List Char) : Parser Span := token (.exactlyNot w no)

/-- The word `w`. -/
def word (w : Text) : Parser Span := fun r => if r.seesWord w then token .name r else .halt r.stuck

def name : Parser Span := token .name

/-- Children and comments in the order of the text. -/
def weave : List Node → List Node → List Node
  | [], ds => ds
  | c :: cs, ds => ds.takeWhile (fun d => d.start < c.start) ++ c ::
      weave cs (ds.dropWhile fun d => d.start < c.start)

/-- What `p` reads, as one node of the kind that `p` gives.  It begins at the next token, also
where `p` reads nothing. -/
def nodeOf (p : Parser (Kind × List Node)) : Parser Node := fun r =>
  let s := r.settle
  match p { s with comments := [] } with
  | .done (k, cs) u =>
    let stop := max s.offset u.last
    .done (.mk k .part ⟨s.offset, stop⟩ (weave cs u.comments.reverse))
      { u with last := stop, comments := s.comments }
  | .halt h => .halt h

/-- What `p` reads, as one node. -/
def node (k : Kind) (p : Parser (List Node)) : Parser Node := nodeOf ((fun cs => (k, cs)) <$> p)

/-- `first` and what `p` reads, as one node. -/
def grow (k : Kind) (first : Node) (p : Parser (List Node)) : Parser Node := fun r =>
  match p { r with comments := [] } with
  | .done cs u =>
    .done (.mk k .part ⟨first.start, u.last⟩ (first :: weave cs u.comments.reverse))
      { u with comments := r.comments }
  | .halt h => .halt h

/-- One token as a node without parts. -/
def leaf (k : Kind) (p : Parser Span) : Parser Node := (fun s => .mk k .part s []) <$> p

/-- `step` again and again, as long as it reads on; what it gives is added to what was read. -/
def loop (step : α → Parser (Option α)) (a : α) : Parser α := fun r => go r.limit a r
where
  go : Nat → α → Parser α
    | 0, a, r => .done a r
    | n + 1, a, r =>
      match step a r with
      | .done (some b) s => go n b s
      | .done none s => .done a s
      | .halt h => .halt h

/-- `p` as long as `more` holds of the place. -/
def many (more : Reader → Bool) (p : Parser (List Node)) : Parser (List Node) := do
  let ns ← loop (fun (acc : List (List Node)) => do
    if ← look more then
      let ns ← p
      return some (ns :: acc)
    else return none) []
  return ns.reverse.flatten

/-- `p` once or more, `sep` between. -/
def sepBy (p : Parser (List Node)) (sep : Parser Span) : Parser (List Node) := do
  let first ← p
  let ns ← loop (fun (acc : List (List Node)) => do
    match ← optional sep with
    | some _ =>
      let ns ← p
      return some (ns :: acc)
    | none => return none) [first]
  return ns.reverse.flatten

/-- What `p` reads, `sep` between and perhaps at the end, up to the mark `close`, which is read
too. -/
def sepUntil (p : Parser (List Node)) (sep : Parser Span) (close : Text) : Parser (List Node) := do
  let ns ← loop (fun (acc : List (List Node)) => do
    if ← look (·.sees close) then return none
    else
      let ns ← p
      if ← look (·.sees close) then return some (ns :: acc)
      else
        let _ ← sep
        return some (ns :: acc)) []
  let _ ← mark close
  return ns.reverse.flatten

end Parser

end StorySuite.Grammar
