import Mathlib.Data.List.Forall2
import StorySuite.Proofs.Story.Edits

/-!
# Trees that are read again

When a text has been changed and is read again, most of its tree is what it was: only the places
have moved.  `Kept m m' at?` relates a node of the module `m` to the same node of the module `m'`.
Names keep their text, and one object, the one at byte `at?`, has a title in front of its
properties.

What is asked of a node to find out what a module exports and binds has the same answer then:

* `Kept.objectLiteral?`                 the object under the wrappers of a value;
* `Kept.hasTitle_eq`, `Kept.hasTitle`   whether an object says its title;
* `Kept.ofClause`, `Kept.boundName?`    the names of a clause and of a declarator;
* `Kept.declaratorsIn`                  the declarators of a statement;
* `Kept.statement`                      **the form of a statement**;
* `Kept.metaExports`, `Kept.exports`    **what a statement exports**.
-/

namespace StorySuite

namespace Node

/-- a node whose text says what it is: a name, or the key of a property -/
def isWord (n : Node) : Bool :=
  n.kind = .identifier || n.kind = .propertyName || n.role = .name || n.role = .asName

section
variable (m m' : Module) (at? : Option Nat)

mutual

/-- whether the second node is the first one, read again -/
def keeps : Node → Node → Bool
  | mk k r s cs, n' =>
    n'.kind = k && n'.role = r &&
      (!(mk k r s cs).isWord || m'.textOf n' = m.textOf (mk k r s cs)) &&
      if k = .object ∧ at? = some s.start then
        match n'.children with
        | p :: ps => p.isTitle m' && keepsAll cs ps
        | [] => false
      else keepsAll cs n'.children

def keepsAll : List Node → List Node → Bool
  | [], ns' => ns'.isEmpty
  | n :: ns, ns' =>
    match ns' with
    | n' :: ns' => keeps n n' && keepsAll ns ns'
    | [] => false

end

/-- **The node `n'` of `m'` is the node `n` of `m`, read again.** -/
def Kept (n n' : Node) : Prop := keeps m m' at? n n' = true

end

section
variable {m m' : Module} {at? : Option Nat}

theorem keepsAll_iff {ns ns' : List Node} :
    keepsAll m m' at? ns ns' = true ↔ List.Forall₂ (Kept m m' at?) ns ns' := by
  induction ns generalizing ns' with
  | nil =>
    rw [keepsAll, List.isEmpty_iff, List.forall₂_nil_left_iff]
  | cons n ns ih =>
    cases ns' with
    | nil =>
      rw [keepsAll]
      exact ⟨fun h => absurd h Bool.false_ne_true, fun h => nomatch h⟩
    | cons n' ns' =>
      rw [keepsAll, Bool.and_eq_true, ih, List.forall₂_cons]
      exact Iff.rfl

variable {n n' : Node}

theorem kept_iff : Kept m m' at? n n' ↔
    n'.kind = n.kind ∧ n'.role = n.role ∧ (n.isWord = true → m'.textOf n' = m.textOf n) ∧
      if n.kind = .object ∧ at? = some n.start then
        ∃ p ps, n'.children = p :: ps ∧ p.isTitle m' = true ∧
          List.Forall₂ (Kept m m' at?) n.children ps
      else List.Forall₂ (Kept m m' at?) n.children n'.children := by
  obtain ⟨k, r, s, cs⟩ := n
  have hword : (!(mk k r s cs).isWord || decide (m'.textOf n' = m.textOf (mk k r s cs))) = true ↔
      ((mk k r s cs).isWord = true → m'.textOf n' = m.textOf (mk k r s cs)) := by
    rw [Bool.or_eq_true, Bool.not_eq_true', decide_eq_true_eq]
    cases (mk k r s cs).isWord <;> simp
  unfold Kept
  rw [keeps, Bool.and_eq_true, Bool.and_eq_true, Bool.and_eq_true, hword, decide_eq_true_eq,
    decide_eq_true_eq, and_assoc, and_assoc]
  refine and_congr_right fun _ => and_congr_right fun _ => and_congr_right fun _ => ?_
  show _ ↔ if k = .object ∧ at? = some s.start then _ else _
  by_cases h : k = .object ∧ at? = some s.start
  · rw [if_pos h, if_pos h]
    cases n'.children with
    | nil => exact ⟨fun h => absurd h Bool.false_ne_true, fun ⟨_, _, h, _⟩ => nomatch h⟩
    | cons p ps =>
      rw [Bool.and_eq_true, keepsAll_iff]
      constructor
      · rintro ⟨h1, h2⟩
        exact ⟨p, ps, rfl, h1, h2⟩
      · rintro ⟨p', ps', h', h1, h2⟩
        cases h'
        exact ⟨h1, h2⟩
  · rw [if_neg h, if_neg h]
    exact keepsAll_iff

/-- the first of some nodes with a property, and the first of those read again -/
theorem kept_find? {ns ns' : List Node} (h : List.Forall₂ (Kept m m' at?) ns ns')
    {p q : Node → Bool} (hpq : ∀ c c', Kept m m' at? c c' → q c' = p c) :
    Option.Rel (Kept m m' at?) (ns.find? p) (ns'.find? q) := by
  induction h with
  | nil => exact .none
  | @cons c c' cs cs' hc _ ih =>
    rw [List.find?_cons, List.find?_cons, hpq c c' hc]
    cases p c with
    | true => exact .some hc
    | false => exact ih

theorem kept_any {ns ns' : List Node} (h : List.Forall₂ (Kept m m' at?) ns ns')
    {p q : Node → Bool} (hpq : ∀ c c', Kept m m' at? c c' → q c' = p c) : ns'.any q = ns.any p := by
  induction h with
  | nil => rfl
  | @cons c c' cs cs' hc _ ih => rw [List.any_cons, List.any_cons, hpq c c' hc, ih]

theorem kept_filterMap {β : Type} {ns ns' : List Node}
    (h : List.Forall₂ (Kept m m' at?) ns ns') {f g : Node → Option β}
    (hfg : ∀ c ∈ ns, ∀ c', Kept m m' at? c c' → g c' = f c) :
    ns'.filterMap g = ns.filterMap f := by
  induction h with
  | nil => rfl
  | @cons c c' cs cs' hc _ ih =>
    rw [List.filterMap_cons, List.filterMap_cons, hfg c List.mem_cons_self c' hc,
      ih fun d hd => hfg d (List.mem_cons_of_mem _ hd)]

/-- what is said of a node that is perhaps there -/
theorem kept_elim {β : Type} {o o' : Option Node} (h : Option.Rel (Kept m m' at?) o o')
    {f g : Node → β} (hfg : ∀ c c', o = some c → Kept m m' at? c c' → g c' = f c) (b : β) :
    o'.elim b g = o.elim b f := by
  cases h with
  | none => rfl
  | some hc => exact hfg _ _ rfl hc

theorem kept_filter {ns ns' : List Node} (h : List.Forall₂ (Kept m m' at?) ns ns')
    {p q : Node → Bool} (hpq : ∀ c c', Kept m m' at? c c' → q c' = p c) :
    List.Forall₂ (Kept m m' at?) (ns.filter p) (ns'.filter q) := by
  induction h with
  | nil => exact .nil
  | @cons c c' cs cs' hc _ ih =>
    rw [List.filter_cons, List.filter_cons, hpq c c' hc]
    cases p c with
    | true => exact .cons hc ih
    | false => exact ih

theorem kind_of_isTitle {p : Node} (h : p.isTitle m = true) : p.kind = .pair := by
  unfold isTitle at h
  exact of_decide_eq_true (Bool.and_eq_true_iff.mp h).1

namespace Kept

theorem kind_eq (h : Kept m m' at? n n') : n'.kind = n.kind := (kept_iff.mp h).1

theorem role_eq (h : Kept m m' at? n n') : n'.role = n.role := (kept_iff.mp h).2.1

theorem textOf_eq (h : Kept m m' at? n n') (hw : n.isWord = true) : m'.textOf n' = m.textOf n :=
  (kept_iff.mp h).2.2.1 hw

theorem textOf_identifier (h : Kept m m' at? n n') (hk : n.kind = .identifier) :
    m'.textOf n' = m.textOf n := by
  refine h.textOf_eq ?_
  unfold isWord
  rw [decide_eq_true hk]
  rfl

/-- all but the object that has been given a title has the children that it had -/
theorem children (h : Kept m m' at? n n') (hn : n.kind ≠ .object) :
    List.Forall₂ (Kept m m' at?) n.children n'.children := by
  have h' := (kept_iff.mp h).2.2.2
  rwa [if_neg fun ho => hn ho.1] at h'

/-- the children of a kind, where the title is of another -/
theorem filter_children (h : Kept m m' at? n n') {k : Kind} (hk : k ≠ .pair) :
    List.Forall₂ (Kept m m' at?) (n.children.filter fun c => c.kind = k)
      (n'.children.filter fun c => c.kind = k) := by
  have hkind : ∀ c c', Kept m m' at? c c' → decide (c'.kind = k) = decide (c.kind = k) :=
    fun c c' hc => by rw [hc.kind_eq]
  have h' := (kept_iff.mp h).2.2.2
  split at h'
  · obtain ⟨p, ps, hps, hp, hall⟩ := h'
    rw [hps, List.filter_cons_of_neg fun hc =>
      hk ((of_decide_eq_true hc).symm.trans (kind_of_isTitle hp))]
    exact kept_filter hall hkind
  · exact kept_filter h' hkind

theorem hasChild_eq (h : Kept m m' at? n n') (hn : n.kind ≠ .object) (k : Kind) :
    n'.hasChild k = n.hasChild k :=
  kept_any (h.children hn) fun c c' hc => by rw [hc.kind_eq]

theorem child? (h : Kept m m' at? n n') (hn : n.kind ≠ .object) (r : Role) :
    Option.Rel (Kept m m' at?) (n.child? r) (n'.child? r) :=
  kept_find? (h.children hn) fun c c' hc => by rw [hc.role_eq]

theorem named (h : Kept m m' at? n n') (hn : n.kind ≠ .object) :
    List.Forall₂ (Kept m m' at?) n.named n'.named :=
  kept_filter (h.children hn) fun c c' hc => by rw [hc.kind_eq]

end Kept

/-! ## objects -/

mutual

/-- **The object under the wrappers of a value is kept.** -/
theorem Kept.objectLiteral? : (n n' : Node) → Kept m m' at? n n' →
    Option.Rel (Kept m m' at?) n.objectLiteral? n'.objectLiteral?
  | mk k r s cs, mk k' r' s' cs', h => by
    obtain rfl : k' = k := h.kind_eq
    rw [Node.objectLiteral?, Node.objectLiteral?]
    by_cases hk : k' = .object
    · rw [if_pos hk, if_pos hk]
      exact .some h
    · rw [if_neg hk, if_neg hk]
      split
      · exact kept_objectInFirst? cs cs' (h.children hk)
      · exact .none

theorem kept_objectInFirst? : (ns ns' : List Node) → List.Forall₂ (Kept m m' at?) ns ns' →
    Option.Rel (Kept m m' at?) (objectInFirst? ns) (objectInFirst? ns')
  | [], _, h => by
    rw [List.forall₂_nil_left_iff.mp h]
    exact .none
  | n :: ns, [], h => nomatch h
  | n :: ns, n' :: ns', h => by
    obtain ⟨h1, h2⟩ := List.forall₂_cons.mp h
    rw [objectInFirst?, objectInFirst?, h1.kind_eq]
    split
    · exact Kept.objectLiteral? n n' h1
    · exact kept_objectInFirst? ns ns' h2

end

namespace Kept

theorem isTitle_eq (h : Kept m m' at? n n') : n'.isTitle m' = n.isTitle m := by
  have hany : ∀ (l : Module) (o : Option Node),
      (o.any fun k => k.kind = .propertyName && l.textOf k = "title".toList) =
        o.elim false fun k => k.kind = .propertyName && l.textOf k = "title".toList := by
    intro l o
    cases o <;> rfl
  unfold isTitle
  rw [h.kind_eq]
  by_cases hk : n.kind = .pair
  · rw [hany, hany, kept_elim (h.child? (by rw [hk]; decide) .key) fun c c' _ hc => ?_]
    rw [hc.kind_eq]
    by_cases hp : c.kind = .propertyName
    · have hw : c.isWord = true := by
        unfold isWord
        rw [hp]
        rfl
      rw [hc.textOf_eq hw]
    · rw [decide_eq_false hp]
      rfl
  · rw [decide_eq_false hk]
    rfl

/-- an object that was given no title says one if it did -/
theorem hasTitle_eq (h : Kept m m' at? n n') (hn : ¬(n.kind = .object ∧ at? = some n.start)) :
    n'.hasTitle m' = n.hasTitle m := by
  have h' := (kept_iff.mp h).2.2.2
  rw [if_neg hn] at h'
  have hnamed : List.Forall₂ (Kept m m' at?) n.named n'.named :=
    kept_filter h' fun c c' hc => by rw [hc.kind_eq]
  exact kept_any hnamed fun c c' hc => hc.isTitle_eq

/-- **The object that was given a title says it.** -/
theorem hasTitle (h : Kept m m' at? n n') (hn : n.kind = .object) (hat : at? = some n.start) :
    n'.hasTitle m' = true := by
  have h' := (kept_iff.mp h).2.2.2
  rw [if_pos ⟨hn, hat⟩] at h'
  obtain ⟨p, ps, hps, hp, -⟩ := h'
  refine List.any_eq_true.mpr ⟨p, List.mem_filter.mpr ⟨?_, by rw [kind_of_isTitle hp]; rfl⟩, hp⟩
  rw [hps]
  exact List.mem_cons_self

/-- an object has a title after all, when it is given one unless it has one -/
theorem titled {o o' : Node}
    (h : Kept m m' ((if o.hasTitle m = true then none else some o).map Node.start) o o')
    (ho : o.kind = .object) : o'.hasTitle m' = true := by
  by_cases ht : o.hasTitle m = true
  · rw [if_pos ht] at h
    rw [h.hasTitle_eq fun hat => nomatch hat.2]
    exact ht
  · rw [if_neg ht] at h
    exact h.hasTitle ho rfl

/-! ## names -/

/-- the text of a child that is a name -/
theorem textOf_child {c c' : Node} (hk : Kept m m' at? c c') {r : Role}
    (hr : r = .name ∨ r = .asName) (hc : n.child? r = some c) : m'.textOf c' = m.textOf c := by
  have hrole : c.role = r := (Node.mem_of_child? hc).2
  refine hk.textOf_eq ?_
  unfold isWord
  rcases hr with rfl | rfl <;> simp [hrole]

theorem boundName? (h : Kept m m' at? n n') (hn : n.kind ≠ .object) :
    n'.boundName? m' = n.boundName? m := by
  have helim : ∀ (l : Module) (v : Node), v.boundName? l =
      (v.child? .name).elim none fun c => if c.kind = .identifier then some (l.textOf c) else none := by
    intro l v
    unfold Node.boundName?
    cases v.child? .name <;> rfl
  rw [helim, helim, kept_elim (h.child? hn .name) fun c c' hc hk => ?_]
  rw [hk.kind_eq, hk.textOf_child (Or.inl rfl) hc]

theorem ofSpecifier? (h : Kept m m' at? n n') :
    ExportName.ofSpecifier? m' n' = ExportName.ofSpecifier? m n := by
  unfold ExportName.ofSpecifier?
  by_cases hk : n.kind = .exportSpecifier
  · have hn : n.kind ≠ .object := by
      rw [hk]
      decide
    have hmap : ∀ (l : Module) (o : Option Node), o.map l.textOf =
        o.elim none fun c => some (l.textOf c) := by
      intro l o
      cases o <;> rfl
    have has : (n'.child? .asName).map m'.textOf = (n.child? .asName).map m.textOf := by
      rw [hmap, hmap, kept_elim (h.child? hn .asName) fun c c' hc hk => ?_]
      rw [hk.textOf_child (Or.inr rfl) hc]
    have helim : ∀ (o : Option Node) (f : Node → ExportName), o.map f =
        o.elim none fun c => some (f c) := by
      intro o f
      cases o <;> rfl
    rw [h.kind_eq, h.hasChild_eq hn, has, helim, helim]
    congr 1
    rw [kept_elim (h.child? hn .name) fun c c' hc hk => ?_]
    rw [hk.textOf_child (Or.inl rfl) hc]
  · rw [h.kind_eq, decide_eq_false hk]
    rfl

/-- **The names of a clause.** -/
theorem ofClause (h : Kept m m' at? n n') (hn : n.kind ≠ .object) :
    ExportName.ofClause m' n' = ExportName.ofClause m n :=
  kept_filterMap (h.named hn) fun _ _ _ hc => hc.ofSpecifier?

/-- **The declarators of a statement.** -/
theorem declaratorsIn (h : Kept m m' at? n n') (hn : n.kind ≠ .object) :
    List.Forall₂ (Kept m m' at?) n.declaratorsIn n'.declaratorsIn := by
  unfold Node.declaratorsIn
  rw [h.kind_eq]
  have h' := h.children hn
  generalize n.kind = k
  generalize n.children = ds at h' ⊢
  generalize n'.children = ds' at h' ⊢
  induction h' with
  | nil => exact .nil
  | @cons d d' ds ds' hd _ ih =>
    rw [List.flatMap_cons, List.flatMap_cons]
    refine List.rel_append (List.rel_append ?_ ?_) ih
    · rw [hd.kind_eq]
      split
      · exact .cons hd .nil
      · exact .nil
    · split
      · exact hd.filter_children (by decide)
      · exact .nil

end Kept

end

end Node

/-! ## statements -/

/-- a statement that is read again is one of the same form, made of the same parts -/
inductive Statement.Kept (m m' : Module) (at? : Option Nat) : Statement → Statement → Prop where
  | defaultExport {n n' v v' : Node} :
      Node.Kept m m' at? v v' → Kept m m' at? (.defaultExport n v) (.defaultExport n' v')
  | clause {n n' c c' : Node} :
      c.kind = .exportClause → Node.Kept m m' at? c c' → Kept m m' at? (.clause n c) (.clause n' c')
  | exportedVariables {n n' d d' : Node} :
      d.kind.declaresVariables = true → Node.Kept m m' at? d d' →
        Kept m m' at? (.exportedVariables n d) (.exportedVariables n' d')
  | localVariables {d d' : Node} :
      Node.Kept m m' at? d d' → Kept m m' at? (.localVariables d) (.localVariables d')
  | other : Kept m m' at? .other .other

namespace Node.Kept

variable {m m' : Module} {at? : Option Nat} {n n' : Node}

theorem ofExport (h : Kept m m' at? n n') (hn : n.kind ≠ .object) :
    Statement.Kept m m' at? (Statement.ofExport n) (Statement.ofExport n') := by
  have hvalue := h.child? hn .value
  have hdecl := h.child? hn .declaration
  have hsource : (n'.child? .source).isSome = (n.child? .source).isSome := by
    have hs := h.child? hn .source
    generalize n.child? .source = o at hs ⊢
    generalize n'.child? .source = o' at hs ⊢
    cases hs <;> rfl
  have hclause : Option.Rel (Kept m m' at?) (n.named.find? fun c => c.kind = .exportClause)
      (n'.named.find? fun c => c.kind = .exportClause) :=
    kept_find? (h.named hn) fun c c' hc => by rw [hc.kind_eq]
  unfold Statement.ofExport
  rw [h.hasChild_eq hn, h.hasChild_eq hn, hsource]
  generalize n.child? .value = v at hvalue ⊢
  generalize n'.child? .value = v' at hvalue ⊢
  generalize n.child? .declaration = d at hdecl ⊢
  generalize n'.child? .declaration = d' at hdecl ⊢
  by_cases hdef : n.hasChild .defaultKeyword = true
  · rw [if_pos hdef, if_pos hdef]
    cases hvalue with
    | some hv => exact .defaultExport hv
    | none =>
      cases hdecl with
      | some hd => exact .defaultExport hd
      | none => exact .other
  · rw [if_neg hdef, if_neg hdef]
    cases hdecl with
    | @some d d' hd =>
      show Statement.Kept m m' at? (if d.kind.declaresVariables = true then _ else _)
        (if d'.kind.declaresVariables = true then _ else _)
      rw [hd.kind_eq]
      split
      · next hk => exact .exportedVariables hk hd
      · exact .other
    | none =>
      have hkind : ∀ c, n.named.find? (fun c => c.kind = .exportClause) = some c →
          c.kind = .exportClause := by
        intro c hc
        have hc' := List.find?_some hc
        exact of_decide_eq_true hc'
      generalize n.named.find? (fun c => c.kind = .exportClause) = o at hclause hkind ⊢
      generalize n'.named.find? (fun c => c.kind = .exportClause) = o' at hclause ⊢
      cases hclause with
      | none => exact .other
      | some hc =>
        show Statement.Kept m m' at? (if _ then _ else _) (if _ then _ else _)
        split
        · exact .other
        · exact .clause (hkind _ rfl) hc

/-- **A statement keeps its form.** -/
theorem statement (h : Kept m m' at? n n') :
    Statement.Kept m m' at? (Statement.ofNode n) (Statement.ofNode n') := by
  unfold Statement.ofNode
  rw [h.kind_eq]
  split
  · next hk => exact h.ofExport (by rw [hk]; decide)
  · exact .localVariables h
  · exact .localVariables h
  · exact .other

end Node.Kept

namespace MetaExport

/-- how a meta object is exported -/
def shape : MetaExport → MetaShape
  | aliased _ => .aliased
  | inline _ _ _ => .inline
  | unrecognized => .unrecognized

/-- the name that a meta object goes by -/
def name : MetaExport → Text
  | aliased n => n
  | _ => binding

end MetaExport

/-- the kind of an export and its name -/
def ExportedName.label : ExportedName → Bool × Text
  | story s => (true, s.name)
  | skipped n => (false, n)

namespace Node.Kept

variable {m m' : Module} {at? : Option Nat} {n n' : Node}

theorem ofValue (h : Kept m m' at? n n') (s s' : Node) :
    (MetaExport.ofValue m' s' n').shape = (MetaExport.ofValue m s n).shape ∧
      (MetaExport.ofValue m' s' n').name = (MetaExport.ofValue m s n).name := by
  unfold MetaExport.ofValue
  rw [h.kind_eq]
  by_cases hk : n.kind = .identifier
  · rw [if_pos hk, if_pos hk, h.textOf_identifier hk]
    exact ⟨rfl, rfl⟩
  · rw [if_neg hk, if_neg hk]
    have ho := objectLiteral? n n' h
    generalize n.objectLiteral? = o at ho ⊢
    generalize n'.objectLiteral? = o' at ho ⊢
    cases ho with
    | none => exact ⟨rfl, rfl⟩
    | some _ => exact ⟨rfl, rfl⟩

/-- **The default exports of a statement.** -/
theorem metaExports (h : Kept m m' at? n n') :
    ((MetaExport.ofStatement m' n').map fun e => (e.shape, e.name)) =
      (MetaExport.ofStatement m n).map fun e => (e.shape, e.name) := by
  have hs := h.statement
  unfold MetaExport.ofStatement
  generalize Statement.ofNode n = a at hs ⊢
  generalize Statement.ofNode n' = b at hs ⊢
  cases hs with
  | @defaultExport s s' v v' hv =>
    obtain ⟨h1, h2⟩ := hv.ofValue s s'
    show [(_, _)] = [(_, _)]
    rw [h1, h2]
  | clause hk hc =>
    show List.map _ (List.map _ _) = List.map _ (List.map _ _)
    rw [hc.ofClause (by rw [hk]; decide)]
  | exportedVariables => rfl
  | localVariables => rfl
  | other => rfl

/-- **What a statement exports**, where the same names are bound. -/
theorem exports (h : Kept m m' at? n n') {bs bs' : Bindings}
    (hbs : ∀ s c, Statement.ofNode n = .clause s c → ∀ e ∈ ExportName.ofClause m c,
      (bs'.get? e.bound).isSome = (bs.get? e.bound).isSome) :
    (Scenario.ofStatement m' bs' n').map ExportedName.label =
      (Scenario.ofStatement m bs n).map ExportedName.label := by
  have hs := h.statement
  unfold Scenario.ofStatement
  generalize Statement.ofNode n = a at hs hbs ⊢
  generalize Statement.ofNode n' = b at hs ⊢
  cases hs with
  | defaultExport => rfl
  | @clause s s' c c' hk hc =>
    show List.map _ (List.map _ _) = List.map _ (List.map _ _)
    rw [hc.ofClause (by rw [hk]; decide), List.map_map, List.map_map]
    refine List.map_congr_left fun e he => ?_
    have h' := hbs s c rfl e (List.mem_of_mem_filter he)
    show ExportedName.label (Scenario.ofExportName bs' e) =
      ExportedName.label (Scenario.ofExportName bs e)
    unfold Scenario.ofExportName
    generalize bs.get? e.bound = b at h' ⊢
    generalize bs'.get? e.bound = b' at h' ⊢
    match b, b', h' with
    | none, none, _ => rfl
    | some b, some b', _ => rfl
  | @exportedVariables s s' d d' hk hd =>
    have hobj : d.kind ≠ .object := fun ho => by
      rw [ho] at hk
      cases hk
    show List.map _ (List.filterMap _ _) = List.map _ (List.filterMap _ _)
    rw [List.map_filterMap, List.map_filterMap]
    refine kept_filterMap (kept_filter (hd.named hobj) fun c c' hc => by rw [hc.kind_eq]) ?_
    intro v hv v' hvv
    have hk : v.kind = .variableDeclarator := of_decide_eq_true (List.mem_filter.mp hv).2
    rw [hvv.boundName? (by rw [hk]; decide)]
    cases v.boundName? m <;> rfl
  | localVariables => rfl
  | other => rfl

end Node.Kept

end StorySuite
