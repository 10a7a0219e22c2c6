import StorySuite.Output.Write
import StorySuite.Settings.Basic
import StorySuite.Files.Scan

/-!
# Sessions

What a command leaves behind: the files, and what it has said on either stream.  A trouble is a
failure with its causes, from the outside in; one that ends a command is shown with each cause on a
line of its own, any other on one line.
-/

namespace StorySuite

/-- What went wrong, and why, from the outside in. -/
abbrev Trouble := List Text

namespace Trouble

def inline (t : Trouble) : Text := Text.join ": ".toList t

/-- A text whose first line stands behind `head` and whose other lines are moved in by `margin`. -/
def indented (head margin t : Text) : Text :=
  head ++ Text.join ('\n' :: margin) (Text.fields '\n' t)

/-- A number that ends in the fifth column. -/
def aligned (n : Nat) : Text :=
  let digits := Text.ofNat n
  List.replicate (5 - digits.length) ' ' ++ digits

/-- Causes with their numbers, from `n` on. -/
def numbered (n : Nat) : Trouble → Text
  | [] => []
  | c :: cs =>
    '\n' :: indented (aligned n ++ [':', ' ']) (List.replicate 7 ' ') c ++ numbered (n + 1) cs

/-- The causes of a trouble below it. -/
def causes : Trouble → Text
  | [] => []
  | [c] => "\n\nCaused by:\n".toList ++ indented (List.replicate 4 ' ') (List.replicate 4 ' ') c
  | cs => "\n\nCaused by:".toList ++ numbered 0 cs

/-- A trouble that ends a command. -/
def report : Trouble → Text
  | [] => "Error: "
  | t :: cs => "Error: ".toList ++ t ++ causes cs

end Trouble

/-- The files, and the lines that are said. -/
structure Session where
  workspace : Workspace
  output : List Text
  messages : List Text

namespace Session

/-- A session in which nothing has happened. -/
def start (w : Workspace) : Session := ⟨w, [], []⟩

/-- Says something on the output. -/
def print (s : Session) (line : Text) : Session := { s with output := s.output ++ [line] }

/-- Says some things on the output. -/
def printAll (s : Session) (lines : List Text) : Session := { s with output := s.output ++ lines }

/-- Says something beside the output. -/
def tell (s : Session) (line : Text) : Session := { s with messages := s.messages ++ [line] }

/-- Says some things beside the output. -/
def tellAll (s : Session) (lines : List Text) : Session := { s with messages := s.messages ++ lines }

end Session

def linesText (lines : List Text) : Text := lines.flatMap fun l => l ++ ['\n']

/-- What a command has done when it is over. -/
structure Finish where
  session : Session
  trouble : Option Trouble

namespace Finish

/-- Whether a command has failed. -/
def failed (f : Finish) : Bool := f.trouble.isSome

/-- What is printed on the output. -/
def output (f : Finish) : Text := linesText f.session.output

/-- What is printed beside the output. -/
def messages (f : Finish) : Text :=
  linesText (f.session.messages ++ (f.trouble.map Trouble.report).toList)

end Finish

end StorySuite
