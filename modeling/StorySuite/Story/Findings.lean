import StorySuite.Module.Bindings
import StorySuite.Patch.Chunk

/-!
# What is found out about a story module

A module without a default export cannot be used at all; everything else that is wrong with it is
only noted.
-/

namespace StorySuite

/-- What a story module cannot be used for. -/
inductive Failure where
  /-- There is no default export. -/
  | noMeta (id : Text)
  /-- An edit was refused. -/
  | refused (why : Refusal)
  deriving DecidableEq, Repr

def Failure.message : Failure → Text
  | noMeta id =>
    "could not detect the meta (default export) object in " ++ id ++
      "\n\nPlease make sure the story file has a default export with the meta object. If you are using a different export format that is not supported, please file an issue with details about your use case."
  | refused why => why.message

/-- What is noted about a story module. -/
structure Findings where
  warnings : List Text
  /-- Exported names that no variable of the module goes by. -/
  skippedExports : List Text
  deriving DecidableEq, Repr

namespace Findings

def none : Findings := ⟨[], []⟩

/-- `f` with one more warning. -/
def warn (f : Findings) (w : Text) : Findings := { f with warnings := f.warnings ++ [w] }

/-- `f` with one more name that is not found. -/
def skip (f : Findings) (name : Text) : Findings :=
  { f with skippedExports := f.skippedExports ++ [name] }

/-- Either list after the other's. -/
def append (f g : Findings) : Findings :=
  ⟨f.warnings ++ g.warnings, f.skippedExports ++ g.skippedExports⟩

end Findings

end StorySuite
