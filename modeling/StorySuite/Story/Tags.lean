import StorySuite.Json.Basic

/-!
# Tags

Which stories are run: those with all of the tags that are included and none that is excluded;
those with a tag to skip are reported as skipped.  Here the filter is only handed on, as JSON.
-/

namespace StorySuite

/-- The tags that decide which stories are run. -/
structure TagFilter where
  included : List Text
  excluded : List Text
  skipped : List Text
  deriving DecidableEq, Repr

namespace TagFilter

/-- The filter that is used when none is given. -/
def standard : TagFilter := ⟨["test".toList], [], []⟩

def toJson (f : TagFilter) : Json :=
  .object [("include".toList, .strings f.included), ("exclude".toList, .strings f.excluded),
    ("skip".toList, .strings f.skipped)]

def render (f : TagFilter) : Text := f.toJson.compact

end TagFilter

end StorySuite
