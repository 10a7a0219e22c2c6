import StorySuite.Module.Literal
import StorySuite.Proofs.Story.Names

/-!
# What an object literal defines

An object literal is a list of definitions, and a later one of a key takes the place of an earlier
one.  A pair, a shorthand, a method and every property of what is spread are data, whatever the key
was before; the two halves of an accessor are put together, but data in front of them is given up.
So a definition that comes first is lost as soon as its key is defined in any form, and is all there
is of the key if it never is.

What keys and expressions stand for is left to a `Scope`, which may change with every expression
that it reads.  Only bare names and strings stand for themselves.  The key `__proto__` is a key like
any other here.

* `Definition.ofNode?`      the definition that a part of an object literal makes;
* `Scope.define`, `Scope.evaluate`   what definitions make of the properties that are there;
* `Scope.evaluate_title`    **a title in front of all definitions is there unless they make one**;
* `Scope.isSome_evaluate`   what is defined stays defined.
-/

namespace StorySuite.Literal

/-- A key as it is written. -/
inductive Key where
  | name (t : Text)
  | string (t : Text)
  | number (t : Text)
  /-- An expression in brackets. -/
  | computed (t : Text)
  deriving DecidableEq, Repr

/-- A definition with its expressions as they are written. -/
inductive Definition where
  | pair (key : Key) (value : Text)
  | shorthand (name : Text)
  | method (key : Key) (function : Text)
  | getter (key : Key) (function : Text)
  | setter (key : Key) (function : Text)
  | spread (value : Text)
  deriving DecidableEq, Repr

def Key.ofNode (m : Module) (n : Node) : Key :=
  if n.kind = .propertyName then name (m.textOf n)
  else match m.textOf n with
    | '[' :: _ => computed (m.textOf n)
    | '"' :: _ => string (m.textOf n)
    | '\x27' :: _ => string (m.textOf n)
    | _ => number (m.textOf n)

namespace Definition

/-- A function under a key, where `word` stands in front of the key. -/
def ofFunction (key : Key) (word function : Text) : Definition :=
  if word = "get".toList then getter key function
  else if word = "set".toList then setter key function
  else method key function

/-- **The definition that a part of an object literal makes.**  Comments make none. -/
def ofNode? (m : Module) (n : Node) : Option Definition :=
  match n.kind with
  | .pair => (n.child? .key).map fun k =>
      pair (.ofNode m k) (((n.child? .value).map m.textOf).getD [])
  | .construct =>
    let word := (m.textOf n).takeWhile Grammar.isNameChar
    if "...".toList.isPrefixOf (m.textOf n) then some (spread (List.drop 3 (m.textOf n)))
    else match n.named.find? fun c => c.kind ≠ .comment with
      | none => some (shorthand (m.textOf n))
      | some k =>
        -- no body is left for a method where the first part is the last one
        if k.stop = n.stop then some (shorthand word)
        else some (ofFunction (.ofNode m k) (if k.start = n.start then [] else word) (m.textOf n))
  | _ => none

/-- The title that is given to an object literal. -/
def title (t : Text) : Definition := pair (.name "title") (Quoted.encode t)

end Definition

def definitions (m : Module) (o : Node) : List Definition :=
  o.children.filterMap (Definition.ofNode? m)

/-! ## properties -/

/-- What a property goes by: a string, as UTF-16 units, or a symbol. -/
inductive PropertyKey where
  | string (units : List Nat)
  | symbol (n : Nat)
  deriving DecidableEq

namespace PropertyKey

def title : PropertyKey := string (Spelling.utf16 "title")

end PropertyKey

inductive Slot (V : Type) where
  | data (v : V)
  | accessor (get set : Option V)
  deriving DecidableEq

variable {σ V : Type}

namespace Slot

def get? : Option (Slot V) → Option V
  | some (accessor g _) => g
  | _ => none

def set? : Option (Slot V) → Option V
  | some (accessor _ s) => s
  | _ => none

/-! What is made of the value of a definition and of the slot that was there. -/

def ofValue (a : V) (_ : Option (Slot V)) : Slot V := data a

def ofGetter (a : V) (old : Option (Slot V)) : Slot V := accessor (some a) (set? old)

def ofSetter (a : V) (old : Option (Slot V)) : Slot V := accessor (get? old) (some a)

end Slot

abbrev Properties (V : Type) := PropertyKey → Option (Slot V)

namespace Properties

def update (f : Properties V) (k : PropertyKey) (make : Option (Slot V) → Slot V) :
    Properties V :=
  fun x => if x = k then some (make (f k)) else f x

/-- The properties with those of what is spread, one after the other. -/
def updateAll (f : Properties V) (ps : List (PropertyKey × V)) : Properties V :=
  ps.foldl (fun f p => f.update p.1 (Slot.ofValue p.2)) f

/-- The properties with a title, unless they have one. -/
def withTitle (a : V) (f : Properties V) : Properties V :=
  fun k => if k = .title then (f k).or (some (.data a)) else f k

end Properties

/-- **What keys and expressions stand for.**  Reading one may change what the next ones do. -/
structure Scope (σ V : Type) where
  /-- The value that a string is. -/
  string : List Nat → V
  key : Key → σ → PropertyKey × σ
  /-- The value of an expression or a function. -/
  value : Text → σ → V × σ
  /-- The properties of what is spread, in order. -/
  spread : Text → σ → List (PropertyKey × V) × σ
  key_name : ∀ t u s, Spelling.identifier? t = some u → key (.name t) s = (.string u, s)
  key_string : ∀ t u s, Spelling.value? t = some u → key (.string t) s = (.string u, s)
  value_string : ∀ t u s, Spelling.value? t = some u → value t s = (string u, s)

namespace Scope

variable (c : Scope σ V)

def place (k : Key) (t : Text) (make : V → Option (Slot V) → Slot V) (p : σ × Properties V) :
    σ × Properties V :=
  -- the key is read before the value
  let key := c.key k p.1
  let value := c.value t key.2
  (value.2, p.2.update key.1 (make value.1))

/-- **What a definition makes of the properties that are there.** -/
def define (p : σ × Properties V) : Definition → σ × Properties V
  | .pair k t => c.place k t Slot.ofValue p
  | .shorthand n => c.place (.name n) n Slot.ofValue p
  | .method k t => c.place k t Slot.ofValue p
  | .getter k t => c.place k t Slot.ofGetter p
  | .setter k t => c.place k t Slot.ofSetter p
  | .spread t => ((c.spread t p.1).2, p.2.updateAll (c.spread t p.1).1)

/-- **The properties that definitions make, one after the other.** -/
def evaluate (s : σ) (ds : List Definition) : σ × Properties V :=
  ds.foldl c.define (s, fun _ => none)

/-- The scope where a string is its units and all else its text; nothing is spread. -/
def plain : Scope Unit (List Nat ⊕ Text) where
  string := .inl
  key
    | .name t, s => (.string ((Spelling.identifier? t).getD []), s)
    | .string t, s => (.string ((Spelling.value? t).getD []), s)
    | .number t, s => (.string (Spelling.utf16 t), s)
    | .computed t, s => (.string (Spelling.utf16 t), s)
  value t s := (((Spelling.value? t).map .inl).getD (.inr t), s)
  spread _ s := ([], s)
  key_name t u s h := by
    show (PropertyKey.string ((Spelling.identifier? t).getD []), s) = _
    rw [h]
    rfl
  key_string t u s h := by
    show (PropertyKey.string ((Spelling.value? t).getD []), s) = _
    rw [h]
    rfl
  value_string t u s h := by
    rw [h]
    rfl

end Scope

/-! ## a title in front -/

namespace Properties

variable {f : Properties V} {k : PropertyKey} {make : Option (Slot V) → Slot V} {a : V}

/-- a slot that does not look at a title makes the same of none -/
theorem update_withTitle (h : make (some (.data a)) = make none) :
    (f.withTitle a).update k make = (f.update k make).withTitle a := by
  funext x
  simp only [update, withTitle]
  by_cases hx : x = k
  · subst hx
    have hmake : make (if x = .title then (f x).or (some (.data a)) else f x) = make (f x) := by
      split
      · cases f x with
        | none => exact h
        | some slot => rfl
      · rfl
    rw [if_pos rfl, if_pos rfl, hmake]
    exact (ite_self _).symm
  · rw [if_neg hx, if_neg hx]

theorem withTitle_title : f.withTitle a .title = (f .title).or (some (.data a)) := if_pos rfl

theorem withTitle_of_ne (h : k ≠ .title) : f.withTitle a k = f k := if_neg h

theorem updateAll_withTitle (ps : List (PropertyKey × V)) :
    (f.withTitle a).updateAll ps = (f.updateAll ps).withTitle a := by
  induction ps generalizing f with
  | nil => rfl
  | cons p ps ih =>
    show ((f.withTitle a).update p.1 _).updateAll ps = ((f.update p.1 _).updateAll ps).withTitle a
    rw [update_withTitle rfl, ih]

theorem withTitle_of_isSome (h : (f .title).isSome = true) : f.withTitle a = f := by
  obtain ⟨slot, hs⟩ := Option.isSome_iff_exists.mp h
  funext k
  by_cases hk : k = .title
  · rw [hk, withTitle_title, hs]
    rfl
  · exact withTitle_of_ne hk

theorem isSome_update (x : PropertyKey) (h : (f x).isSome = true) :
    (f.update k make x).isSome = true := by
  unfold update
  split
  · rfl
  · exact h

theorem isSome_updateAll (ps : List (PropertyKey × V)) (x : PropertyKey)
    (h : (f x).isSome = true) : (f.updateAll ps x).isSome = true := by
  induction ps generalizing f with
  | nil => exact h
  | cons p ps ih => exact ih (isSome_update x h)

end Properties

namespace Scope

open Properties

variable (c : Scope σ V) {s : σ} {f : Properties V} {a : V} {d : Definition} {ds : List Definition}

theorem place_withTitle (k : Key) (t : Text) (make : V → Option (Slot V) → Slot V)
    (h : ∀ b, make b (some (.data a)) = make b none) :
    c.place k t make (s, f.withTitle a) =
      ((c.place k t make (s, f)).1, (c.place k t make (s, f)).2.withTitle a) := by
  unfold place
  dsimp only
  rw [update_withTitle (h _)]

/-- **No definition can tell a title in front from none**, but for leaving it there. -/
theorem define_withTitle :
    c.define (s, f.withTitle a) d = ((c.define (s, f) d).1, (c.define (s, f) d).2.withTitle a) := by
  cases d with
  | pair k t => exact c.place_withTitle k t Slot.ofValue fun _ => rfl
  | shorthand n => exact c.place_withTitle (.name n) n Slot.ofValue fun _ => rfl
  | method k t => exact c.place_withTitle k t Slot.ofValue fun _ => rfl
  -- a title has neither a setter nor a getter to be kept
  | getter k t => exact c.place_withTitle k t Slot.ofGetter fun _ => rfl
  | setter k t => exact c.place_withTitle k t Slot.ofSetter fun _ => rfl
  | spread t =>
    show (_, (f.withTitle a).updateAll _) = _
    rw [updateAll_withTitle]
    rfl

theorem foldl_withTitle :
    ds.foldl c.define (s, f.withTitle a) =
      ((ds.foldl c.define (s, f)).1, (ds.foldl c.define (s, f)).2.withTitle a) := by
  induction ds generalizing s f with
  | nil => rfl
  | cons d ds ih => rw [List.foldl_cons, List.foldl_cons, define_withTitle, ih]

theorem key_plain {t : Text} (h : '\\' ∉ t) (s : σ) :
    c.key (.name t) s = (.string (Spelling.utf16 t), s) :=
  c.key_name t _ s (Spelling.identifier?_eq h)

/-- **A title in front of all definitions is there unless they make one**, and nothing else is
changed by it. -/
theorem evaluate_title (s : σ) (t : Text) (ds : List Definition) :
    c.evaluate s (.title t :: ds) =
      ((c.evaluate s ds).1, (c.evaluate s ds).2.withTitle (c.string (Spelling.utf16 t))) := by
  have hkey : c.key (.name "title") s = (.title, s) := c.key_plain (by decide) s
  have hvalue : c.value (Quoted.encode t) s = (c.string (Spelling.utf16 t), s) :=
    c.value_string _ _ s (Spelling.value?_encode t)
  have hfirst : c.define (s, fun _ => none) (.title t) =
      (s, withTitle (c.string (Spelling.utf16 t)) fun _ => none) := by
    show c.place (.name "title") (Quoted.encode t) Slot.ofValue _ = _
    unfold place
    dsimp only
    rw [hkey, hvalue]
    rfl
  unfold evaluate
  rw [List.foldl_cons, hfirst, foldl_withTitle]

/-! ## what is defined -/

theorem isSome_place {p : σ × Properties V} (k : Key) (t : Text)
    (make : V → Option (Slot V) → Slot V) (x : PropertyKey) (h : (p.2 x).isSome = true) :
    ((c.place k t make p).2 x).isSome = true :=
  isSome_update x h

theorem isSome_define {p : σ × Properties V} (x : PropertyKey) (h : (p.2 x).isSome = true) :
    ((c.define p d).2 x).isSome = true := by
  cases d with
  | spread t => exact isSome_updateAll _ x h
  | pair k t => exact c.isSome_place k t Slot.ofValue x h
  | shorthand n => exact c.isSome_place (.name n) n Slot.ofValue x h
  | method k t => exact c.isSome_place k t Slot.ofValue x h
  | getter k t => exact c.isSome_place k t Slot.ofGetter x h
  | setter k t => exact c.isSome_place k t Slot.ofSetter x h

theorem isSome_foldl_define {p : σ × Properties V} (x : PropertyKey) (h : (p.2 x).isSome = true) :
    ((ds.foldl c.define p).2 x).isSome = true := by
  induction ds generalizing p with
  | nil => exact h
  | cons d ds ih => exact ih (c.isSome_define x h)

/-- **What a pair with a bare name defines stays defined.** -/
theorem isSome_evaluate {n v : Text} (h : .pair (.name n) v ∈ ds) (hn : '\\' ∉ n) (s : σ) :
    ((c.evaluate s ds).2 (.string (Spelling.utf16 n))).isSome = true := by
  obtain ⟨before, after, rfl⟩ := List.append_of_mem h
  unfold evaluate
  rw [List.foldl_append, List.foldl_cons]
  refine c.isSome_foldl_define _ ?_
  show ((c.place (.name n) v Slot.ofValue _).2 _).isSome = true
  unfold place update
  dsimp only
  rw [c.key_plain hn, if_pos rfl]
  rfl

end Scope

end StorySuite.Literal
