import StorySuite.Json.Reader
import StorySuite.SourceMap.Basic

/-!
# Reading source maps

`SourceMap.read` reads the JSON text of a source map.  Fields may stand in any order, those that a
map does not have are passed over, and `file` and `sourcesContent` may be left out or be `null`.
-/

namespace StorySuite.SourceMap

open Json.Reader

def texts : Json.Reader (List Text) := list (text "a string")

def members : List (Member SourceMap) :=
  [.needed "version" byte fun v m => { m with version := v },
    .free "file" (optional (text "a string")) fun v m => { m with file := v },
    .needed "sources" texts fun v m => { m with sources := v },
    .free "sourcesContent" (optional texts) fun v m => { m with sourcesContent := v },
    .needed "names" texts fun v m => { m with names := v },
    .needed "mappings" (text "a string") fun v m => { m with mappings := v }]

/-- A map without anything in it. -/
def blank : SourceMap := ⟨0, none, [], none, [], []⟩

/-- A source map at the front of a text. -/
def reader : Json.Reader SourceMap := record "struct SourceMap" members blank

def read (t : Text) : Except Json.Fault SourceMap := run reader t

end StorySuite.SourceMap
