import StorySuite.Proofs.Story.Binding
import StorySuite.Proofs.Story.Properties
import StorySuite.Proofs.Story.Wrapped

/-!
# Objects with a title of their own

Only a pair with the bare name `title` keeps a meta object from being given a title.  Of one that
says its title in any other way, its own title is the one that counts: the title that it is given
comes first, and loses.

* `Literal.Stretch`             a stretch of an object literal, with the definition that it makes;
* `Literal.stretches`           the stretches of a literal, with some put behind its brace;
* `Literal.evaluate_titled`     what a literal defines when it is given a title;
* `Module.exists_written`       where the literal stands in the code of a test module;
* `transform_properties`        **a title of its own is the title of a meta object**.
-/

namespace StorySuite

namespace Literal

/-- a stretch of an object literal, and the definition that it makes, if it makes one -/
structure Stretch where
  text : Text
  definition? : Option Definition

/-- the stretches of a literal from byte `a` up to byte `b`, where the parts `ns` stand -/
def stretchesFrom (m : Module) (b : Nat) : Nat → List Node → List Stretch
  | a, [] => [⟨m.text.slice a b, none⟩]
  | a, n :: ns => ⟨m.text.slice a n.start, none⟩ :: ⟨m.textOf n, Definition.ofNode? m n⟩ ::
      stretchesFrom m b n.stop ns

/-- **The stretches of a literal**, with those of `added` behind its brace. -/
def stretches (m : Module) (o : Node) (added : List Stretch) : List Stretch :=
  ⟨m.text.slice o.start (o.start + 1), none⟩ ::
    (added ++ stretchesFrom m o.stop (o.start + 1) o.children)

/-- what is put behind the brace of an object literal, unless it has a title -/
def titleStretches (m : Module) (title : Text) (o : Node) : List Stretch :=
  if o.hasTitle m = true then []
  else [⟨[' '], none⟩, ⟨"title: " ++ Quoted.encode title, some (.title title)⟩, ⟨[','], none⟩]

def written (ls : List Stretch) : Text := ls.flatMap Stretch.text

def defined (ls : List Stretch) : List Definition := ls.filterMap Stretch.definition?

variable {m : Module} {o : Node} {added : List Stretch}

/-! ## the text of a literal -/

theorem written_stretchesFrom (hm : m.Regular) {ns : List Node} (hns : ∀ n ∈ ns, m.Has n) {a b : Nat}
    (ha : m.text.isBoundary a = true) (hb : m.text.isBoundary b = true) (hrow : Node.Row a b ns) :
    written (stretchesFrom m b a ns) = m.text.slice a b := by
  induction ns generalizing a with
  | nil => exact List.append_nil _
  | cons n ns ih =>
    obtain ⟨h1, h2, h3⟩ := hrow
    have hn := hns n List.mem_cons_self
    have hstart := hm.boundary_start hn
    have hstop := hm.boundary_stop hn
    have hrest := ih (fun x hx => hns x (List.mem_cons_of_mem _ hx)) hstop h3
    show m.text.slice a n.start ++ (m.text.slice n.start n.stop ++
      written (stretchesFrom m b n.stop ns)) = _
    rw [hrest, Text.slice_trans hstart hstop hb h2 h3.le,
      Text.slice_trans ha hstart hb h1 (Nat.le_trans h2 h3.le)]

theorem written_stretches (hm : m.Regular) (ho : m.Has o) (hk : o.kind = .object)
    (hbehind : ∀ c ∈ o.children, o.start < c.start) (added : List Stretch) :
    written (stretches m o added) = m.text.slice o.start (o.start + 1) ++ written added ++
      m.text.slice (o.start + 1) o.stop := by
  obtain ⟨hlt, hbrace⟩ := hm.brace_boundary ho hk
  have hrow : Node.Row (o.start + 1) o.stop o.children := by
    have hrow := hm.row_of_has ho
    cases hcs : o.children with
    | nil => exact hlt
    | cons c cs =>
      rw [hcs] at hrow hbehind
      exact ⟨hbehind c List.mem_cons_self, hrow.2⟩
  have hrest := written_stretchesFrom hm (fun c hc => ho.child hc) hbrace (hm.boundary_stop ho) hrow
  show m.text.slice o.start (o.start + 1) ++ written (added ++ stretchesFrom m _ _ _) = _
  unfold written at hrest ⊢
  rw [List.flatMap_append, hrest, List.append_assoc]

theorem written_titleStretches (title : Text) : written (titleStretches m title o) =
    if o.hasTitle m = true then [] else Meta.titleProperty title := by
  unfold titleStretches
  split
  · rfl
  · show [' '] ++ ("title: ".toList ++ Quoted.encode title ++ ([','] ++ [])) = _
    rfl

/-! ## the definitions of a literal -/

theorem defined_stretchesFrom (a b : Nat) (ns : List Node) :
    defined (stretchesFrom m b a ns) = ns.filterMap (Definition.ofNode? m) := by
  induction ns generalizing a with
  | nil => rfl
  | cons n ns ih =>
    have hrest := ih n.stop
    unfold defined at hrest ⊢
    rw [stretchesFrom, List.filterMap_cons_none rfl, List.filterMap_cons, List.filterMap_cons, hrest]

theorem defined_stretches (m : Module) (o : Node) (added : List Stretch) :
    defined (stretches m o added) = defined added ++ definitions m o := by
  have hrest := defined_stretchesFrom (m := m) (o.start + 1) o.stop o.children
  unfold defined at hrest ⊢
  rw [stretches, List.filterMap_cons_none rfl, List.filterMap_append, hrest]
  rfl

/-- the property that counts as a title is a definition of one -/
theorem pair_of_hasTitle (h : o.hasTitle m = true) :
    ∃ v, Definition.pair (.name "title") v ∈ definitions m o := by
  obtain ⟨n, hn, htitle⟩ := List.any_eq_true.mp h
  obtain ⟨hk, hkey⟩ := Bool.and_eq_true_iff.mp htitle
  have hk : n.kind = .pair := of_decide_eq_true hk
  obtain ⟨k, hkey, hname⟩ := (Option.any_eq_true _ _).mp hkey
  obtain ⟨hkind, htext⟩ := Bool.and_eq_true_iff.mp hname
  have hofNode : Key.ofNode m k = .name "title" := by
    unfold Key.ofNode
    rw [if_pos (of_decide_eq_true hkind), of_decide_eq_true htext]
  refine ⟨((n.child? .value).map m.textOf).getD [], ?_⟩
  refine List.mem_filterMap.mpr ⟨n, List.mem_of_mem_filter hn, ?_⟩
  unfold Definition.ofNode?
  rw [hk]
  show (n.child? .key).map _ = _
  rw [hkey, Option.map_some, hofNode]

/-- **What a literal defines when it is given a title**: what it defined before, and the title if it
defined none. -/
theorem evaluate_titled {σ V : Type} (c : Scope σ V) (s : σ) (title : Text) :
    c.evaluate s (defined (stretches m o (titleStretches m title o))) =
      ((c.evaluate s (definitions m o)).1,
        (c.evaluate s (definitions m o)).2.withTitle (c.string (Spelling.utf16 title))) := by
  rw [defined_stretches]
  unfold titleStretches
  split
  · next h =>
    obtain ⟨v, hv⟩ := pair_of_hasTitle h
    have hsome := c.isSome_evaluate hv (by decide) s
    show c.evaluate s (definitions m o) = _
    rw [Properties.withTitle_of_isSome hsome]
  · exact c.evaluate_title s title (definitions m o)

end Literal

/-! ## where the literal stands -/

namespace Module

variable {m : Module} {e : MetaExport} {o : Node}

theorem mem_partsFrom {tags : Text} {f : Node → List Part} {a b : Nat} {ns : List Node} {n : Node}
    {p : Part} (hn : n ∈ ns) (hp : p ∈ f n) : p ∈ m.partsFrom tags f b a ns := by
  obtain ⟨xs, ys, rfl⟩ := List.append_of_mem hn
  rw [partsFrom_append]
  exact List.mem_append_left _ (List.mem_append_right _ (List.mem_append_right _ hp))

theorem mem_parts {tags title : Text} {n : Node} {p : Part} (hn : n ∈ m.tree.children)
    (hp : p ∈ m.partsOf title e n) : p ∈ m.parts tags title e := by
  unfold parts
  exact List.mem_append_left _ (List.mem_append_left _ (mem_partsFrom hn hp))

section
variable (hm : m.Regular)
include hm

/-- a part of a text around an object, with `t` behind its brace -/
theorem slice_around {a b : Nat} (ha : m.text.isBoundary a = true) (hb : m.text.isBoundary b = true)
    (ho : m.Has o) (hk : o.kind = .object) (h1 : a ≤ o.start) (h2 : o.stop ≤ b) (t : Text) :
    m.text.slice a (o.start + 1) ++ t ++ m.text.slice (o.start + 1) b =
      m.text.slice a o.start ++ (m.text.slice o.start (o.start + 1) ++ t ++
        m.text.slice (o.start + 1) o.stop) ++ m.text.slice o.stop b := by
  obtain ⟨hlt, hbrace⟩ := hm.brace_boundary ho hk
  rw [← Text.slice_trans ha (hm.boundary_start ho) hbrace h1 (Nat.le_succ _),
    ← Text.slice_trans hbrace (hm.boundary_stop ho) hb hlt h2]
  simp only [List.append_assoc]

/-- how the object stands in the statement, or in the value, that is written for it -/
theorem slice_eq_written {a b : Nat} (ha : m.text.isBoundary a = true)
    (hb : m.text.isBoundary b = true) (ho : m.Has o) (hk : o.kind = .object)
    (hbehind : ∀ c ∈ o.children, o.start < c.start) (h1 : a ≤ o.start) (h2 : o.stop ≤ b)
    (title : Text) :
    (if o.hasTitle m = true then m.text.slice a b
      else m.text.slice a (o.start + 1) ++ Meta.titleProperty title ++ m.text.slice (o.start + 1) b) =
      m.text.slice a o.start ++
        Literal.written (Literal.stretches m o (Literal.titleStretches m title o)) ++
          m.text.slice o.stop b := by
  obtain ⟨hlt, hbrace⟩ := hm.brace_boundary ho hk
  rw [Literal.written_stretches hm ho hk hbehind, ← slice_around hm ha hb ho hk h1 h2,
    Literal.written_titleStretches]
  split
  · rw [List.append_nil, Text.slice_trans ha hbrace hb (by omega) (by omega)]
  · rfl

/-- **Where the meta object stands in the code of a test module**: in the statement that declares
it, or behind the name that it is given. -/
theorem exists_written (he : (MetaExport.all m).head? = some e) (ho : Meta.object? m e = some o)
    (hbehind : ∀ c ∈ o.children, o.start < c.start) (tags title : Text) :
    ∃ n, ∃ p ∈ m.parts tags title e, m.Has n ∧ n.start ≤ o.start ∧ o.stop ≤ n.stop ∧
      let t := m.text.slice n.start o.start ++
        Literal.written (Literal.stretches m o (Literal.titleStretches m title o)) ++
          m.text.slice o.stop n.stop
      p.text = t ∨ p.text = Meta.opening ++ t ++ ";" := by
  cases e with
  | unrecognized => cases ho
  | inline s v o' =>
    obtain rfl : o' = o := Option.some.inj ho
    have hin := MetaExport.inline_of_mem_all (List.mem_of_mem_head? he)
    have hv := ((has_root m).child hin.statement).child hin.value
    obtain ⟨hhas, hk, h1, h2⟩ := hm.object hv hin.object
    have hwritten := slice_eq_written hm (hm.boundary_start hv) (hm.boundary_stop hv) hhas hk
      hbehind h1 h2 title
    have hnamed : Part.named v (Meta.titledValue m title v o') ∈
        m.partsOf title (.inline s v o') s := by
      rw [partsOf, if_pos rfl]
      exact List.mem_cons_self
    refine ⟨v, _, mem_parts hin.statement hnamed, hv, h1, h2, Or.inr ?_⟩
    rw [← hwritten]
    rfl
  | aliased name =>
    have ho' : m.objectOf? name = some o := (hm.objectOf?_eq name).symm.trans ho
    obtain ⟨n, hn, -, hhas, hk, h1, h2⟩ := exists_around hm ho'
    have hroot := (has_root m).child hn
    obtain ⟨hlt, -⟩ := hm.brace_boundary hhas hk
    have hspelled := slice_eq_written hm (hm.boundary_start hroot) (hm.boundary_stop hroot) hhas hk
      hbehind h1 h2 title
    obtain ⟨p, hp, htext⟩ : ∃ p ∈ m.partsOf title (.aliased name) n,
        p.text = m.spelled title (.aliased name) n := by
      show ∃ p ∈ partsOf.plainly m title (.aliased name) n, _
      unfold partsOf.plainly
      split
      · exact ⟨_, List.mem_singleton.mpr rfl, rfl⟩
      · exact ⟨_, List.mem_singleton.mpr rfl, rfl⟩
    refine ⟨n, p, mem_parts hn hp, hroot, h1, h2, Or.inl ?_⟩
    rw [htext, ← hspelled]
    unfold spelled
    rw [MetaExport.untitled?_aliased ho']
    by_cases ht : o.hasTitle m = true
    · rw [if_pos ht, if_pos ht]
      rfl
    · rw [if_neg ht, if_neg ht]
      exact if_pos ⟨h1, by omega⟩

end

end Module

/-- **A title of its own is the title of a meta object.**  Its literal stands in the code of the test
module as it is, or with a title behind its brace.  Whatever its keys, its expressions and what it
spreads stand for, evaluating it has the same effects as before, and gives the same value to every
key but `title`; to `title` it gives the value that it gave before, and the title of the module if it
gave none. -/
theorem transform_properties (id text : Text) (tags : TagFilter) (title : Text → Text) {s : Story}
    (h : transform id text tags title = .ok (.story s)) {e : MetaExport} {o : Node}
    (he : (MetaExport.all (Module.read id text)).head? = some e)
    (ho : Meta.object? (Module.read id text) e = some o) :
    let m := Module.read id text
    let before := Literal.stretches m o []
    let after := Literal.stretches m o (Literal.titleStretches m (title id) o)
    Literal.written before = m.textOf o ∧ Literal.defined before = Literal.definitions m o ∧
      s.code = (m.parts tags.render (title id) e).flatMap Part.text ∧
      (∃ n, ∃ p ∈ m.parts tags.render (title id) e, m.Has n ∧ n.start ≤ o.start ∧ o.stop ≤ n.stop ∧
        let t := m.text.slice n.start o.start ++ Literal.written after ++ m.text.slice o.stop n.stop
        p.text = t ∨ p.text = Meta.opening ++ t ++ ";") ∧
      ∀ {σ V : Type} (c : Literal.Scope σ V) (st : σ),
        let old := c.evaluate st (Literal.defined before)
        let new := c.evaluate st (Literal.defined after)
        new.1 = old.1 ∧ (∀ k, k ≠ .title → new.2 k = old.2 k) ∧
          new.2 .title = (old.2 .title).or (some (.data (c.string (Spelling.utf16 (title id))))) := by
  intro m before after
  have hm : m.Regular := Module.regular_read id text
  have hs : Story.ofModule m tags (title id) = .ok s := Story.ofModule_of_transform h
  obtain ⟨hhas, hk⟩ : m.Has o ∧ o.kind = .object := Meta.has_object? hm he ho
  have hregular := Module.regular_of_has hhas (by rw [hk]; nofun) (by rw [hk]; nofun)
  have hbehind : ∀ c ∈ o.children, o.start < c.start := hregular.placed.behind hk
  obtain ⟨hlt, hbrace⟩ := hm.brace_boundary hhas hk
  have hdefined : Literal.defined before = Literal.definitions m o := Literal.defined_stretches m o []
  refine ⟨?_, hdefined, Story.code_eq_parts hm hs he,
    Module.exists_written hm he ho hbehind _ _, fun c st => ?_⟩
  · rw [Literal.written_stretches hm hhas hk hbehind]
    show m.text.slice o.start (o.start + 1) ++ [] ++ _ = _
    rw [List.append_nil, Text.slice_trans (hm.boundary_start hhas) hbrace (hm.boundary_stop hhas)
      (Nat.le_succ _) hlt]
    rfl
  · have hafter := Literal.evaluate_titled (m := m) (o := o) c st (title id)
    intro old new
    have hnew : new = (old.1, old.2.withTitle (c.string (Spelling.utf16 (title id)))) := by
      show c.evaluate st (Literal.defined after) = _
      rw [hafter, ← hdefined]
    rw [hnew]
    exact ⟨rfl, fun k hk => Literal.Properties.withTitle_of_ne hk, Literal.Properties.withTitle_title⟩

/-- an object that says its title twice, but not as a pair with a bare name -/
def ownText : Text := "export default \x7b 'title': a, get title() \x7b return b \x7d \x7d as T"

theorem transform_properties_own : ∃ s e o,
    let m := Module.read "a.stories.ts" ownText
    transform "a.stories.ts" ownText TagFilter.standard (fun _ => "T") = .ok (.story s) ∧
      (MetaExport.all m).head? = some e ∧ Meta.object? m e = some o ∧ o.hasTitle m = false ∧
      (Literal.Scope.plain.evaluate () (Literal.defined (Literal.stretches m o
        (Literal.titleStretches m "T" o)))).2 .title =
          some (.accessor (some (.inr "get title() \x7b return b \x7d")) none) := by
  have hcheck : ((MetaExport.all (Module.read "a.stories.ts" ownText)).head?.any fun e =>
      (Meta.object? (Module.read "a.stories.ts" ownText) e).any fun o =>
        decide (o.hasTitle (Module.read "a.stories.ts" ownText) = false ∧
          Literal.definitions (Module.read "a.stories.ts" ownText) o =
            [.pair (.string "'title'") "a",
              .getter (.name "title") "get title() \x7b return b \x7d"])) = true := by
    decide +kernel
  obtain ⟨e, he, hcheck⟩ := (Option.any_eq_true _ _).mp hcheck
  obtain ⟨o, ho, hcheck⟩ := (Option.any_eq_true _ _).mp hcheck
  obtain ⟨htitle, hdefs⟩ := of_decide_eq_true hcheck
  obtain ⟨-, s, hs, -⟩ :=
    Story.ofModule_eq (Module.regular_read "a.stories.ts" ownText) he TagFilter.standard "T"
  have h : transform "a.stories.ts" ownText TagFilter.standard (fun _ => "T") =
      .ok (.story s) := by
    unfold transform
    rw [if_pos (by decide +kernel), hs]
    rfl
  obtain ⟨-, hdefined, -, -, heval⟩ := transform_properties _ _ _ _ h he ho
  refine ⟨s, e, o, h, he, ho, htitle, ?_⟩
  obtain ⟨-, -, hnew⟩ := heval Literal.Scope.plain ()
  rw [hdefined, hdefs] at hnew
  have hkey : Literal.Scope.plain.key (.string "'title'") () = (.title, ()) :=
    Literal.Scope.plain.key_string _ _ () (Spelling.value?_encode "title")
  have hname : Literal.Scope.plain.key (.name "title") () = (.title, ()) :=
    Literal.Scope.plain.key_plain (by decide) ()
  rw [hnew]
  unfold Literal.Scope.evaluate
  rw [List.foldl_cons, List.foldl_cons, List.foldl_nil]
  unfold Literal.Scope.define Literal.Scope.place
  dsimp only
  rw [hkey, hname]
  rfl

end StorySuite
