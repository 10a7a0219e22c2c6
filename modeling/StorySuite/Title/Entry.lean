import StorySuite.Text.Basic

/-!
# Entries of the list of stories

A specifier says where stories are: as one pattern, or as a directory with a pattern for the files
in it and a prefix for their titles.  A `TitleEntry` is a specifier in its second form with nothing
left out: a pattern is split in front of its first part with a wildcard, and a pattern without any
is a directory.
-/

namespace StorySuite

/-- Where stories are, as it is given. -/
inductive Specifier where
  | pattern (t : Text)
  | directory (directory : Text) (files titlePrefix : Option Text)
  deriving DecidableEq, Repr

/-- Where stories are. -/
structure TitleEntry where
  directory : Text
  files : Text
  titlePrefix : Text
  deriving DecidableEq, Repr

namespace TitleEntry

/-- The files that are stories when nothing else is said. -/
def standardFiles : Text := "**/*.@(mdx|stories.@(mdx|js|jsx|mjs|ts|tsx))"

def hasWildcard (part : Text) : Bool :=
  part.any fun c => ['*', '?', '[', '{', '(', '!'].contains c

/-- A text without the slashes at its end. -/
def dropSlashes (t : Text) : Text := (t.reverse.dropWhile (· = '/')).reverse

/-- A text without the steps to the current directory at its front. -/
def dropHere : Text → Text
  | '.' :: '/' :: t => dropHere t
  | t => t

def ofPattern (t : Text) : TitleEntry :=
  let parts := Text.fields '/' t
  let plain := parts.takeWhile fun p => !hasWildcard p
  match parts.drop plain.length with
  | [] => ⟨dropSlashes t, standardFiles, []⟩
  | wild => ⟨Text.join ['/'] plain, Text.join ['/'] wild, []⟩

def ofSpecifier : Specifier → TitleEntry
  | .pattern t => ofPattern t
  | .directory d files titlePrefix =>
    ⟨dropSlashes d, (files.map dropHere).getD standardFiles, titlePrefix.getD []⟩

end TitleEntry

end StorySuite
