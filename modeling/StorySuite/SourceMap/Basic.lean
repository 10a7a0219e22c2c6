import StorySuite.Json.Basic
import StorySuite.SourceMap.Trace

/-!
# Source maps

A source map says for a generated file where its parts come from.  It is written as a JSON object
in which what is not given is left out.
-/

namespace StorySuite

/-- A source map, its mappings in their written form. -/
structure SourceMap where
  version : UInt8
  file : Option Text
  sources : List Text
  sourcesContent : Option (List Text)
  names : List Text
  mappings : Text
  deriving DecidableEq, Repr

namespace SourceMap

/-- The map of a patch of `text`, whose name is `source`. -/
def ofChunks (source text : Text) (cs : List Chunk) : SourceMap :=
  ⟨3, none, [source], some [text], [], (Mappings.ofChunks text cs).encode⟩

/-- A field, if it is given. -/
def given (key : String) (v : Option Json) : List (Text × Json) :=
  match v with
  | some v => [(key.toList, v)]
  | none => []

def toJson (m : SourceMap) : Json :=
  .object (("version".toList, Json.ofNat m.version.toNat) :: given "file" (m.file.map .string) ++
    ("sources".toList, .strings m.sources) ::
      given "sourcesContent" (m.sourcesContent.map .strings) ++
    [("names".toList, .strings m.names), ("mappings".toList, .string m.mappings)])

def render (m : SourceMap) : Text := m.toJson.compact

end SourceMap

end StorySuite
