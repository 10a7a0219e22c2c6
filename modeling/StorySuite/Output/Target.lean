import StorySuite.Path.Basic

/-!
# Where test modules go

A test module lies below the output directory as its story file lies below the path that was
searched, and its source map lies next to it.
-/

namespace StorySuite.Output

/-- The path of the test module for a file that was found below `root`. -/
def codePath (file root directory : Text) : Text :=
  let relative := match Path.below? root file with
    | some (c :: t) => c :: t
    | _ => (Path.fileName? file).getD file
  Path.join directory relative

/-- The path of the source map of a test module. -/
def mapPath (code : Text) : Text := code ++ ".map"

/-- The code with a comment that says where its source map is. -/
def withMapComment (code mapName : Text) : Text :=
  code ++ "\n//# sourceMappingURL=" ++ mapName ++ "\n"

end StorySuite.Output
