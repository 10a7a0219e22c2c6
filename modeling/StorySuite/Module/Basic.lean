import StorySuite.Path.Basic
import StorySuite.Grammar.Module

/-!
# Modules

A `Module` is a text with the tree it has in its dialect.  `Module.statements` are what stands at
its top level, comments apart.
-/

namespace StorySuite

/-- Whether a text may hold elements. -/
inductive Dialect where
  | plain
  | elements
  deriving DecidableEq, Repr

namespace Dialect

/-- The endings of files without elements. -/
def plainExtensions : List Text := ["ts", "mts", "cts"]

/-- The part of an identifier that names a file: what stands before its query. -/
def fileOf (id : Text) : Text := id.takeWhile (· != '?')

/-- The dialect that the ending of the file says. -/
def ofId (id : Text) : Dialect :=
  match Path.extension? (fileOf id) with
  | some e => if plainExtensions.contains e then plain else elements
  | none => elements

end Dialect

/-- A module that has been read. -/
structure Module where
  id : Text
  text : Text
  tree : Node

namespace Module

/-- Reads a text in the dialect of `id`. -/
def read (id text : Text) : Module :=
  ⟨id, text, Grammar.parseModule (Dialect.ofId id == .elements) text⟩

/-- Whether some part of the text fitted nowhere. -/
def hasErrors (m : Module) : Bool := m.tree.hasError

def textOf (m : Module) (n : Node) : Text := n.text m.text

/-- The nodes at the top level, comments apart. -/
def statements (m : Module) : List Node := m.tree.named.filter fun n => n.kind != .comment

end Module

end StorySuite
