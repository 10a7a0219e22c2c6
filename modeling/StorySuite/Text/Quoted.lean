import StorySuite.Text.Basic

/-!
# Quoted texts

A text between single quotes, on one line: quotes, backslashes and line ends are written with a
backslash, all else as it is.

`Quoted.encode` writes a text, `Quoted.decode?` reads one back.
-/

namespace StorySuite.Quoted

/-- The characters between the quotes. -/
def escape : Text → Text
  | [] => []
  | c :: t =>
    (if c = '\\' then ['\\', '\\']
    else if c = '\x27' then ['\\', '\x27']
    else if c = '\n' then ['\\', 'n']
    else if c = '\r' then ['\\', 'r']
    else [c]) ++ escape t

def encode (t : Text) : Text := '\x27' :: escape t ++ ['\x27']

/-- What stands between the quotes, up to the one that closes; nothing may follow it. -/
def unescape? : Text → Option Text
  | [] => none
  | '\\' :: c :: t =>
    (unescape? t).map ((if c = 'n' then '\n' else if c = 'r' then '\r' else c) :: ·)
  | c :: t =>
    if c = '\x27' then if t.isEmpty then some [] else none
    else if c = '\\' || c = '\n' || c = '\r' then none
    else (unescape? t).map (c :: ·)

def decode? : Text → Option Text
  | '\x27' :: t => unescape? t
  | _ => none

end StorySuite.Quoted
