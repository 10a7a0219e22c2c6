import StorySuite.Proofs.Grammar.Module
import StorySuite.Proofs.Story.Again

/-!
# Meta objects in wrappers

A meta object may stand in parentheses and in front of `as`, `satisfies` and `!`, in any order and
with comments anywhere.  It is found under all of them, unless a comment follows an opening
parenthesis: the first thing with a name is taken for what the parentheses are around, and comments
have a name.

* `Node.Wraps v o ws`            the object `o` is the value `v`, in the wrappers `ws`;
* `Node.objectLiteral?_iff`      it is found if nothing in front of it masks it;
* `Module.wrapperForm_read`      in a text that is read, only a parenthesis can be followed by a
                                 comment;
* `Meta.apply_wrapped`           **what is found of the meta object of a text, and what is done**;
* `Meta.apply_masked`            a comment behind a parenthesis.
-/

namespace StorySuite

namespace Node

/-- what a wrapper is around -/
def content? (w : Node) : Option Node := w.named.find? fun c => c.kind ≠ .comment

/-- whether a comment comes first in a wrapper -/
def isMasked (w : Node) : Bool := w.named.head?.any fun c => c.kind = .comment

/-- **The value is the object literal `o`, in wrappers**: `ws` are all of them, the outermost
first. -/
inductive Wraps : Node → Node → List Node → Prop where
  | object {o : Node} : o.kind = .object → Wraps o o []
  | wrapper {w e o : Node} {ws : List Node} : w.kind.isWrapper = true → w.content? = some e →
      Wraps e o ws → Wraps w o (w :: ws)

/-- the value is the object literal `o`, in wrappers of which no parenthesis is followed by a
comment -/
def Shows (v o : Node) : Prop :=
  ∃ ws, v.Wraps o ws ∧ ∀ w ∈ ws, w.kind = .parenthesizedExpression → w.isMasked = false

variable {v w e o : Node} {ws : List Node}

theorem filter_named (h : e.kind.isNamed = true) (rest : List Node) :
    (e :: rest).filter (fun c => c.kind.isNamed) = e :: rest.filter fun c => c.kind.isNamed :=
  List.filter_cons_of_pos h

theorem find?_content (h : e.kind ≠ .comment) (rest : List Node) :
    (e :: rest).find? (fun c => c.kind ≠ .comment) = some e :=
  List.find?_cons_of_pos (decide_eq_true h)

/-! ## what is found -/

theorem objectInFirst?_eq (cs : List Node) :
    objectInFirst? cs = (cs.filter fun c => c.kind.isNamed).head?.bind objectLiteral? := by
  induction cs with
  | nil => rfl
  | cons c cs ih =>
    rw [objectInFirst?, List.filter_cons]
    split
    · rfl
    · exact ih

theorem objectLiteral?_object (h : o.kind = .object) : o.objectLiteral? = some o := by
  obtain ⟨k, r, s, cs⟩ := o
  rw [objectLiteral?]
  exact if_pos h

theorem objectLiteral?_wrapper (h : w.kind.isWrapper = true) :
    w.objectLiteral? = w.named.head?.bind objectLiteral? := by
  obtain ⟨k, r, s, cs⟩ := w
  have hk : k ≠ .object := by
    intro hk
    rw [show (mk k r s cs).kind = .object from hk] at h
    cases h
  have h' : k.isWrapper = true := h
  rw [objectLiteral?, if_neg hk, if_pos h']
  exact objectInFirst?_eq cs

theorem objectLiteral?_other (h : v.kind ≠ .object) (h' : v.kind.isWrapper = false) :
    v.objectLiteral? = none := by
  obtain ⟨k, r, s, cs⟩ := v
  have hk : ¬k = .object := h
  have hw : ¬k.isWrapper = true := Bool.eq_false_iff.mp h'
  rw [objectLiteral?, if_neg hk, if_neg hw]

/-- behind a comment nothing is found -/
theorem objectLiteral?_masked (h : w.kind.isWrapper = true) (hm : w.isMasked = true) :
    w.objectLiteral? = none := by
  rw [objectLiteral?_wrapper h]
  unfold isMasked at hm
  cases hc : w.named.head? with
  | none => rfl
  | some c =>
    rw [hc] at hm
    have hk : c.kind = .comment := of_decide_eq_true hm
    exact objectLiteral?_other (by rw [hk]; decide) (by rw [hk]; rfl)

theorem objectLiteral?_unmasked (h : w.kind.isWrapper = true) (hm : w.isMasked = false) :
    w.objectLiteral? = w.content?.bind objectLiteral? := by
  rw [objectLiteral?_wrapper h]
  unfold isMasked at hm
  unfold content?
  cases hc : w.named with
  | nil => rfl
  | cons c cs =>
    rw [hc] at hm
    have hk : c.kind ≠ .comment := of_decide_eq_false hm
    rw [find?_content hk]
    rfl

theorem mem_of_content? (h : w.content? = some e) : e ∈ w.children :=
  List.mem_of_mem_filter (List.mem_of_find?_eq_some h)

/-- an object that is found is in wrappers, and none of them is masked -/
theorem exists_wraps {v o : Node} (h : v.objectLiteral? = some o) :
    ∃ ws, v.Wraps o ws ∧ ∀ w ∈ ws, w.isMasked = false := by
  by_cases hk : v.kind = .object
  · rw [objectLiteral?_object hk] at h
    obtain rfl := Option.some.inj h
    exact ⟨[], .object hk, nofun⟩
  · cases hw : v.kind.isWrapper with
    | false =>
      rw [objectLiteral?_other hk hw] at h
      cases h
    | true =>
      cases hm : v.isMasked with
      | true =>
        rw [objectLiteral?_masked hw hm] at h
        cases h
      | false =>
        rw [objectLiteral?_unmasked hw hm] at h
        obtain ⟨e, he, ho⟩ := Option.bind_eq_some_iff.mp h
        have hlt := List.sizeOf_lt_of_mem (mem_of_content? he)
        obtain ⟨ws, hws, hall⟩ := exists_wraps ho
        refine ⟨v :: ws, .wrapper hw he hws, fun w hmem => ?_⟩
        rcases List.mem_cons.mp hmem with rfl | hmem
        · exact hm
        · exact hall w hmem
  termination_by sizeOf v
  decreasing_by
    obtain ⟨k, r, s, cs⟩ := v
    have : sizeOf cs < sizeOf (Node.mk k r s cs) := by
      rw [Node.mk.sizeOf_spec]
      omega
    show sizeOf e < sizeOf (Node.mk k r s cs)
    have hlt' : sizeOf e < sizeOf cs := hlt
    omega

/-- **The object in wrappers is found** if none of them is masked, and there is nothing else to be
found. -/
theorem objectLiteral?_iff :
    v.objectLiteral? = some o ↔ ∃ ws, v.Wraps o ws ∧ ∀ w ∈ ws, w.isMasked = false := by
  refine ⟨exists_wraps, ?_⟩
  rintro ⟨ws, h, hall⟩
  induction h with
  | object hk => exact objectLiteral?_object hk
  | @wrapper w e o ws hw he _ ih =>
    rw [objectLiteral?_unmasked hw (hall w List.mem_cons_self), he]
    exact ih fun x hx => hall x (List.mem_cons_of_mem _ hx)

/-! ## wrappers of a text -/

/-- comments come first in parentheses only -/
theorem WrapperForm.isMasked_eq_false (h : w.WrapperForm) (hk : w.kind ≠ .parenthesizedExpression) :
    w.isMasked = false := by
  cases h with
  | @first k r s e rest h1 h2 h3 =>
    show (((e :: rest).filter fun c => c.kind.isNamed).head?.any _) = false
    rw [filter_named h2]
    exact decide_eq_false h1
  | parentheses => exact absurd rfl hk

/-- what stands behind the comments is what a wrapper is around -/
theorem WrapperForm.exists_content (h : w.WrapperForm) :
    ∃ e, w.content? = some e ∧ e.kind ≠ .comment ∧
      (w.kind ≠ .parenthesizedExpression → e.start = w.start) := by
  cases h with
  | @first k r s e rest h1 h2 h3 =>
    refine ⟨e, ?_, h1, fun _ => h3⟩
    show ((e :: rest).filter fun c => c.kind.isNamed).find? _ = _
    rw [filter_named h2, find?_content h1]
  | @parentheses r s cs e rest h1 h2 h3 =>
    refine ⟨e, ?_, h2, fun h => absurd rfl h⟩
    show ((cs ++ e :: rest).filter fun c => c.kind.isNamed).find? _ = _
    have hcs : (cs.filter fun c => c.kind.isNamed).find? (fun c => c.kind ≠ .comment) = none := by
      refine List.find?_eq_none.mpr fun c hc hk => ?_
      exact of_decide_eq_true hk (h1 c (List.mem_of_mem_filter hc))
    rw [List.filter_append, List.find?_append, hcs, filter_named h3, find?_content h2]
    rfl

end Node

namespace Module

open Node

variable {id text : Text} {n v o : Node}

/-- the nodes of a text that is read, its root apart -/
theorem regular_of_has (h : (read id text).Has n) (hprogram : n.kind ≠ .program)
    (herror : n.kind ≠ .error) : n.Regular text := by
  obtain ⟨k, ws, hkind, htree, -, hreg⟩ :=
    Grammar.covered_parseModule (Dialect.ofId id == .elements) text
  have hread : (read id text).tree = .mk k .part ⟨0, Text.size text⟩ ws := htree
  obtain ⟨above, h⟩ := h
  rw [hread, Node.places_eq] at h
  rcases List.mem_cons.mp h with h | h
  · cases h
    rcases hkind with rfl | rfl
    · exact absurd rfl hprogram
    · exact absurd rfl herror
  · obtain ⟨c, hc, h⟩ := Node.mem_placesAll.mp h
    exact (hreg c hc).of_mem_places h

theorem wrapperForm_read (h : (read id text).Has n) (hk : n.kind.isWrapper = true) :
    n.WrapperForm := by
  have hne : ∀ k : Kind, k.isWrapper = false → n.kind ≠ k := by
    intro k hw hnk
    rw [hnk, hw] at hk
    cases hk
  exact (regular_of_has h (hne .program rfl) (hne .error rfl)).placed.wrapper hk

/-- **What is found of a value that is read**: the object literal that it is in wrappers, as long
as no parenthesis is followed by a comment. -/
theorem objectLiteral?_read (hv : (read id text).Has v) :
    v.objectLiteral? = some o ↔ v.Shows o := by
  rw [objectLiteral?_iff]
  constructor
  · rintro ⟨ws, hws, hall⟩
    exact ⟨ws, hws, fun w hw _ => hall w hw⟩
  · rintro ⟨ws, hws, hall⟩
    refine ⟨ws, hws, ?_⟩
    induction hws with
    | object => exact nofun
    | @wrapper w e o ws hw he _ ih =>
      intro x hx
      rcases List.mem_cons.mp hx with rfl | hx
      · by_cases hk : x.kind = .parenthesizedExpression
        · exact hall x List.mem_cons_self hk
        · exact (wrapperForm_read hv hw).isMasked_eq_false hk
      · exact ih (hv.child (mem_of_content? he)) (fun y hy => hall y (List.mem_cons_of_mem _ hy)) x hx

/-! ## the meta object -/

/-- the value of the meta object of a module: what its first default export exports, or what the
name that is exported is declared with -/
inductive MetaValue (m : Module) : Node → Prop where
  | exported (before : List Node) {after : List Node} {n s v : Node} :
      m.statements = before ++ n :: after → before.flatMap (MetaExport.ofStatement m) = [] →
      Statement.ofNode n = .defaultExport s v → v.kind ≠ .identifier → MetaValue m v
  | declared {name : Text} {b : Binding} {v : Node} :
      (MetaExport.all m).head? = some (.aliased name) →
      (Bindings.ofModule m).get? name = some b → b.declarator.child? .value = some v →
      MetaValue m v

/-- what a module exports as the default in the first of its statements -/
def leading? (m : Module) : Option Node :=
  m.statements.head?.bind fun n =>
    match Statement.ofNode n with
    | .defaultExport _ v => some v
    | _ => none

theorem MetaValue.of_leading {m : Module} (h : m.leading? = some v) (hk : v.kind ≠ .identifier) :
    m.MetaValue v := by
  obtain ⟨n, hn, hv⟩ := Option.bind_eq_some_iff.mp h
  obtain ⟨after, hst⟩ := List.head?_eq_some_iff.mp hn
  split at hv
  · next s v' hs =>
    obtain rfl := Option.some.inj hv
    exact .exported [] hst rfl hs hk
  · cases hv

theorem MetaValue.has {m : Module} (hm : m.Regular) (h : m.MetaValue v) : m.Has v := by
  cases h with
  | @exported before after n s v hst _ hn _ =>
    have hmem : n ∈ m.statements := by
      rw [hst]
      exact List.mem_append_right _ List.mem_cons_self
    have htop : n ∈ m.tree.children := List.mem_of_mem_filter (List.mem_of_mem_filter hmem)
    obtain ⟨-, -, -, hv⟩ := Statement.ofNode_eq_defaultExport hn
    exact ((has_root m).child htop).child (mem_of_exported hv).1
  | declared _ hb hv =>
    rw [Bindings.get?_ofModule hm] at hb
    obtain ⟨s, hs, -, hd⟩ := Bindings.mem_topLevel_of_declared? hb
    exact (has_of_declaratorsIn (has_of_topLevel hs) hd).child (mem_of_child? hv).1

/-- the default export that the value of the meta object makes, and its object -/
theorem MetaValue.exists_export {m : Module} (h : m.MetaValue v) :
    ∃ e, (MetaExport.all m).head? = some e ∧
      ((∃ name, e = .aliased name ∧ Meta.objectOf? (Bindings.ofModule m) name = v.objectLiteral?) ∨
        (∃ s o, e = .inline s v o ∧ v.objectLiteral? = some o) ∨
        e = .unrecognized ∧ v.objectLiteral? = none) := by
  cases h with
  | @declared name b v he hb hv =>
    refine ⟨_, he, Or.inl ⟨name, rfl, ?_⟩⟩
    unfold Meta.objectOf?
    rw [hb, Option.bind_some, hv, Option.bind_some]
  | @exported before after n s v hst hbefore hn hk =>
    have hof : MetaExport.ofStatement m n = [MetaExport.ofValue m s v] := by
      unfold MetaExport.ofStatement
      rw [hn]
    refine ⟨MetaExport.ofValue m s v, ?_, Or.inr ?_⟩
    · unfold MetaExport.all
      rw [hst, List.flatMap_append, hbefore, List.nil_append, List.flatMap_cons, hof]
      rfl
    · unfold MetaExport.ofValue
      rw [if_neg hk]
      cases ho : v.objectLiteral? with
      | none => exact Or.inr ⟨rfl, rfl⟩
      | some o => exact Or.inl ⟨s, o, rfl, rfl⟩

end Module

namespace Meta

open Node

variable {m : Module} {title : Text} {p p' : Patch} {f f' : Findings}

theorem titled_giveTitle {o : Node} {b : Bool} (h : giveTitle m p o title = .ok (p', b)) :
    b = !o.hasTitle m := by
  unfold giveTitle at h
  by_cases ht : o.hasTitle m = true
  · rw [if_pos ht] at h
    cases h
    rw [ht]
    rfl
  · rw [if_neg ht] at h
    rw [Bool.eq_false_iff.mpr ht]
    cases hp : edit (p.insert (o.start + 1) (titleProperty title)) with
    | error why =>
      rw [hp] at h
      cases h
    | ok q =>
      rw [hp] at h
      cases h
      rfl

/-- the object that a default export is of -/
def object? (m : Module) : MetaExport → Option Node
  | .aliased name => objectOf? (Bindings.ofModule m) name
  | .inline _ _ o => some o
  | .unrecognized => none

theorem has_object? (hm : m.Regular) {e : MetaExport} {o : Node}
    (he : (MetaExport.all m).head? = some e) (h : object? m e = some o) :
    m.Has o ∧ o.kind = .object := by
  cases e with
  | unrecognized => cases h
  | aliased name => exact object_of_objectOf? hm h
  | inline s v o' =>
    obtain rfl : o' = o := Option.some.inj h
    have hin := MetaExport.inline_of_mem_all (List.mem_of_mem_head? he)
    obtain ⟨-, hv, -⟩ := hin.bounds hm
    obtain ⟨hhas, hk, -⟩ := hm.object hv hin.object
    exact ⟨hhas, hk⟩

/-- a meta object is given a title if it is found and says none itself -/
theorem apply_titled {e : MetaExport} {info : Meta} (he : (MetaExport.all m).head? = some e)
    (h : apply m (Bindings.ofModule m) title p f = .ok (info, p', f')) :
    info.titled = (object? m e).any fun o => !o.hasTitle m := by
  unfold apply at h
  rw [find_eq he] at h
  simp only [bind, Except.bind] at h
  cases e with
  | unrecognized =>
    cases h
    rfl
  | aliased name =>
    show info.titled = (objectOf? (Bindings.ofModule m) name).any _
    simp only at h
    split at h
    · next o ho =>
      split at h
      · cases h
      · next r hr =>
        cases h
        rw [ho]
        exact titled_giveTitle hr
    · next ho =>
      cases h
      rw [ho]
      rfl
  | inline s v o =>
    simp only at h
    split at h
    · cases h
    · next r hr =>
      split at h
      · cases h
      · split at h
        · cases h
        · cases h
          exact titled_giveTitle hr

/-- the edits of the meta object are those of its title, and perhaps more -/
theorem titleEdits_subset (m : Module) (title : Text) {e : MetaExport} {o : Node}
    (h : object? m e = some o) : ∀ d ∈ titleEdits m title o, d ∈ edits m title e := by
  intro d hd
  cases e with
  | unrecognized => cases h
  | aliased name =>
    have ho : objectOf? (Bindings.ofModule m) name = some o := h
    rw [edits_aliased, ho]
    exact hd
  | inline s v o' =>
    obtain rfl : o' = o := Option.some.inj h
    exact List.mem_append_left _ hd

/-- **What is found of the meta object of a text, and what is done to it.**  Wrappers begin with
what they are around, and only in parentheses can comments come before it.  Of any value that is
read, the object literal is found that it is in wrappers, unless a comment follows one of its
parentheses; for every other value nothing is found.  If it is found for the value of the meta
object, the title is put behind its brace, unless it says one; if not, no title is. -/
theorem apply_wrapped (id text title : Text) (f : Findings) :
    let m := Module.read id text
    (∀ w, m.Has w → w.kind.isWrapper = true → ∃ e, w.content? = some e ∧
      (w.kind ≠ .parenthesizedExpression → e.start = w.start ∧ w.isMasked = false)) ∧
    (∀ v o, m.Has v → (v.objectLiteral? = some o ↔ v.Shows o)) ∧
      ∀ v, m.MetaValue v → ∃ info p f',
        apply m (Bindings.ofModule m) title (Patch.ofText m.text) f = .ok (info, p, f') ∧
        (∀ o, v.Shows o → info.titled = !o.hasTitle m ∧ ∀ d ∈ titleEdits m title o, d ∈ p.edits) ∧
        ((∀ o, ¬v.Shows o) → info.titled = false) := by
  intro m
  have hm : m.Regular := Module.regular_read id text
  have hfound : ∀ v o, m.Has v → (v.objectLiteral? = some o ↔ v.Shows o) :=
    fun v o hv => Module.objectLiteral?_read hv
  refine ⟨fun w hw hk => ?_, hfound, fun v hv => ?_⟩
  · have hform := Module.wrapperForm_read hw hk
    obtain ⟨e, he, -, hstart⟩ := hform.exists_content
    exact ⟨e, he, fun hp => ⟨hstart hp, hform.isMasked_eq_false hp⟩⟩
  · have hhas := hv.has hm
    obtain ⟨e, he, hcases⟩ := hv.exists_export
    have hobject : object? m e = v.objectLiteral? := by
      rcases hcases with ⟨name, rfl, h⟩ | ⟨s, o, rfl, h⟩ | ⟨rfl, h⟩
      · exact h
      · exact h.symm
      · exact h.symm
    obtain ⟨⟨info, f', happly⟩, -⟩ := apply_eq hm he title f
    have htitled := apply_titled he happly
    rw [hobject] at htitled
    refine ⟨info, _, f', happly, fun o ho => ?_, fun hnone => ?_⟩
    · have ho' := (hfound v o hhas).mpr ho
      rw [ho'] at htitled
      exact ⟨htitled, titleEdits_subset m title (hobject.trans ho')⟩
    · rw [htitled]
      cases ho : v.objectLiteral? with
      | none => rfl
      | some o => exact absurd ((hfound v o hhas).mp ho) (hnone o)

/-- an object in four wrappers, with comments between them -/
def wrappedText : Text :=
  "export default (({ x: 1 } /* a */ as /* b */ T)! /* c */ satisfies U /* d */) // e"

theorem apply_wrapped_nested : ∃ info p f',
    apply (Module.read "a.stories.ts" wrappedText)
      (Bindings.ofModule (Module.read "a.stories.ts" wrappedText)) "T"
      (Patch.ofText wrappedText) Findings.none = .ok (info, p, f') ∧ info.titled = true := by
  have hcheck : ((Module.read "a.stories.ts" wrappedText).leading?.any fun v =>
      v.kind ≠ .identifier && v.objectLiteral?.any fun o =>
        !o.hasTitle (Module.read "a.stories.ts" wrappedText)) = true := by decide +kernel
  obtain ⟨v, hv, hcheck⟩ := (Option.any_eq_true _ _).mp hcheck
  obtain ⟨hk, hany⟩ := Bool.and_eq_true_iff.mp hcheck
  obtain ⟨o, ho, htitle⟩ := (Option.any_eq_true _ _).mp hany
  have hvalue := Module.MetaValue.of_leading hv (of_decide_eq_true hk)
  obtain ⟨-, hfound, happly⟩ := apply_wrapped "a.stories.ts" wrappedText "T" Findings.none
  obtain ⟨info, p, f', h, htitled, -⟩ := happly v hvalue
  have hhas := hvalue.has (Module.regular_read _ _)
  have hshows := (hfound v o hhas).mp ho
  refine ⟨info, p, f', h, ?_⟩
  rw [(htitled o hshows).1]
  exact htitle

/-! ## comments behind a parenthesis -/

/-- an object with a comment between it and its parenthesis -/
def maskedText : Text := "export default (/* meta */ { component: X });\n"

/-- **A comment behind a parenthesis hides the meta object.** -/
theorem apply_masked :
    (∃ v o ws, (Module.read "a.stories.ts" maskedText).MetaValue v ∧ v.Wraps o ws) ∧
      ∃ info p f', apply (Module.read "a.stories.ts" maskedText)
        (Bindings.ofModule (Module.read "a.stories.ts" maskedText)) "T"
        (Patch.ofText maskedText) Findings.none = .ok (info, p, f') ∧ info.titled = false := by
  have hcheck : ((Module.read "a.stories.ts" maskedText).leading?.any fun v =>
      v.kind = .parenthesizedExpression && v.content?.any fun o => o.kind = .object) = true := by
    decide +kernel
  have happly : ((apply (Module.read "a.stories.ts" maskedText)
      (Bindings.ofModule (Module.read "a.stories.ts" maskedText)) "T"
      (Patch.ofText maskedText) Findings.none).toOption.any fun r => !r.1.titled) = true := by
    decide +kernel
  constructor
  · obtain ⟨v, hv, hcheck⟩ := (Option.any_eq_true _ _).mp hcheck
    rw [Bool.and_eq_true, decide_eq_true_eq] at hcheck
    obtain ⟨hk, hcontent⟩ := hcheck
    obtain ⟨o, ho, hobject⟩ := (Option.any_eq_true _ _).mp hcontent
    refine ⟨v, o, [v], .of_leading hv (by rw [hk]; decide), ?_⟩
    exact .wrapper (by rw [hk]; rfl) ho (.object (of_decide_eq_true hobject))
  · cases h : apply (Module.read "a.stories.ts" maskedText)
        (Bindings.ofModule (Module.read "a.stories.ts" maskedText)) "T"
        (Patch.ofText maskedText) Findings.none with
    | error why =>
      rw [h] at happly
      cases happly
    | ok r =>
      rw [h] at happly
      exact ⟨r.1, r.2.1, r.2.2, rfl, (Bool.not_eq_true' _).mp happly⟩

end Meta

end StorySuite
