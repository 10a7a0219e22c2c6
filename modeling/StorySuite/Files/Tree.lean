import StorySuite.Text.Basic

/-!
# File trees

A directory lists its entries by name, in the order of the names.  A way from a directory to an
entry is the list of the names on it.

* `Entry.get? names e`       the entry at the end of a way;
* `Entry.put names f e`      `e` with `f` at the end of a way;
* `Entry.files e`            all files with the ways to them.
-/

namespace StorySuite

/-- What a file holds. -/
inductive Content where
  | text (t : Text)
  /-- Bytes that are no text. -/
  | raw
  deriving DecidableEq, Repr, Inhabited

/-- A file or a directory. -/
inductive Entry where
  | file (c : Content)
  | directory (entries : List (Text × Entry))
  deriving Repr, Inhabited

namespace Entry

def empty : Entry := directory []

def isFile : Entry → Bool
  | file _ => true
  | directory _ => false

def isDirectory : Entry → Bool
  | file _ => false
  | directory _ => true

def entries : Entry → List (Text × Entry)
  | file _ => []
  | directory es => es

/-- The entry of a directory that goes by `name`. -/
def child? (name : Text) (e : Entry) : Option Entry :=
  (e.entries.find? fun p => p.1 = name).map (·.2)

/-- The entry at the end of a way. -/
def get? : List Text → Entry → Option Entry
  | [], e => some e
  | n :: ns, e => (e.child? n).bind (get? ns)

/-- Whether one name comes before another. -/
def before : Text → Text → Bool
  | _, [] => false
  | [], _ :: _ => true
  | a :: s, b :: t => a < b || (a = b && before s t)

/-- Entries with `f` under `name`, in the order of the names. -/
def set (name : Text) (f : Entry) : List (Text × Entry) → List (Text × Entry)
  | [] => [(name, f)]
  | (n, e) :: es =>
    if n = name then (n, f) :: es
    else if before name n then (name, f) :: (n, e) :: es
    else (n, e) :: set name f es

/-- A directory tree with `f` at the end of a way, whose directories are made where they are
missing. -/
def put : List Text → Entry → Entry → Entry
  | [], _, f => f
  | n :: ns, e, f => directory (set n (put ns ((e.child? n).getD empty) f) e.entries)

mutual

def files (way : List Text) : Entry → List (List Text × Content)
  | file c => [(way, c)]
  | directory es => filesIn way es

def filesIn (way : List Text) : List (Text × Entry) → List (List Text × Content)
  | [] => []
  | (n, e) :: es => files (way ++ [n]) e ++ filesIn way es

end

end Entry

end StorySuite
