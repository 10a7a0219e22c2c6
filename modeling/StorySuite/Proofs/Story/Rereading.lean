import StorySuite.Proofs.Module.Reread
import StorySuite.Proofs.Story.Code

/-!
# Modules that are read again

A module that is read from the code that is made of another one has its statements, with
registrations and imports between them.  Where an object was exported without a name, it has the
declaration of a variable and its export instead.

* `Module.Reread`               a module is read from what is made of another;
* `Module.Rereading`            the same, statement by statement;
* `Module.Reread.head?`         its meta object is exported by the name that it was given;
* `Module.Reread.declared?`     the same variables are declared, and one for the meta object;
* `Module.Reread.titled`        its meta object has a title;
* `Module.Reread.allExported`   it exports the same names.
-/

namespace StorySuite

open Node

namespace MetaExport

/-- the default export when the meta object has a variable of its own -/
def again : MetaExport → MetaExport
  | inline _ _ _ => aliased binding
  | e => e

/-- the object that is given a title -/
def untitled? (m : Module) : MetaExport → Option Node
  | aliased n => (m.objectOf? n).filter fun o => !o.hasTitle m
  | inline _ _ o => if o.hasTitle m = true then none else some o
  | unrecognized => none

theorem untitled?_aliased {m : Module} {name : Text} {o : Node} (h : m.objectOf? name = some o) :
    (aliased name).untitled? m = if o.hasTitle m = true then none else some o := by
  show (m.objectOf? name).filter _ = _
  rw [h, Option.filter_some]
  cases o.hasTitle m <;> rfl

/-- the bytes of the statement that gives way to a variable and its export -/
def statement? : MetaExport → Option Span
  | inline s _ _ => some s.span
  | _ => none

/-- the value that is given a variable -/
def value? : MetaExport → Option Node
  | inline _ v _ => some v
  | _ => none

end MetaExport

/-- a statement that neither exports nor declares anything -/
def Node.isIdle (n : Node) : Bool :=
  n.kind != .exportStatement && n.kind != .lexicalDeclaration && n.kind != .variableDeclaration &&
    n.declaratorsIn.isEmpty

/-- what a statement of a text that is read again is -/
inductive Piece where
  /-- one that was not there before -/
  | added
  /-- one that was there -/
  | kept
  /-- one of the two that stand for an object that was exported without a name -/
  | renamed

namespace Module

section
variable (m m' : Module) (e : MetaExport)

/-- whether the value `v` that the statement `n` exports has become that of a variable, which the
statement `d` declares and the statement `x` exports -/
def renames (v n d x : Node) : Bool :=
  n.hasChild .defaultKeyword && n.declaratorsIn.isEmpty && d.kind = .lexicalDeclaration &&
    (match d.declaratorsIn with
    | [w] => w.boundName? m' = some MetaExport.binding &&
        (w.child? .value).any (keeps m m' ((e.untitled? m).map Node.start) v)
    | _ => false) &&
    x.kind = .exportStatement && x.hasChild .defaultKeyword && x.declaratorsIn.isEmpty &&
    (x.child? .value).any fun i => i.kind = .identifier && m'.textOf i = MetaExport.binding

/-- whether some statements are others that are read again, piece by piece -/
def rereads : List Piece → List Node → List Node → Bool
  | [], ns, ns' => ns.isEmpty && ns'.isEmpty
  | .added :: ps, ns, n' :: ns' => n'.isIdle && rereads ps ns ns'
  | .kept :: ps, n :: ns, n' :: ns' =>
    e.statement? ≠ some n.span && n.kind ≠ .object &&
      keeps m m' ((e.untitled? m).map Node.start) n n' && rereads ps ns ns'
  | .renamed :: ps, n :: ns, d :: x :: ns' =>
    e.value?.any (fun v => renames m m' e v n d x) && rereads ps ns ns'
  | _, _, _ => false

end

/-- **The module `m'` is read from the code that is made of `m`**: its statements are those of
`m`, their words unchanged, with statements between them that neither export nor declare anything.
The meta object of `m` has a title and a variable. -/
structure Reread (m m' : Module) : Prop where
  program : m.tree.kind = .program
  program' : m'.tree.kind = .program
  statements : ∃ e ps, (MetaExport.all m).head? = some e ∧
    m.rereads m' e ps m.tree.children m'.tree.children = true

/-- no word of a module is `name` -/
def Spares (m : Module) (name : Text) : Prop :=
  ∀ p ∈ m.tree.places [], p.node.isWord = true → m.textOf p.node ≠ name

end Module

/-! ## statement by statement -/

namespace Module

section
variable (m m' : Module) (e : MetaExport)

/-- the value `v` that the statement `n` exports has become that of a variable, which the statement
`d` declares and the statement `x` exports -/
structure Renamed (v n d x : Node) : Prop where
  keyword : n.hasChild .defaultKeyword = true
  bare : n.declaratorsIn.isEmpty = true
  declaration : d.kind = .lexicalDeclaration
  declared : ∃ w v', d.declaratorsIn = [w] ∧ w.boundName? m' = some MetaExport.binding ∧
    w.child? .value = some v' ∧ Kept m m' ((e.untitled? m).map Node.start) v v'
  kind : x.kind = .exportStatement
  keyword' : x.hasChild .defaultKeyword = true
  bare' : x.declaratorsIn.isEmpty = true
  exported : ∃ i, x.child? .value = some i ∧ i.kind = .identifier ∧
    m'.textOf i = MetaExport.binding

/-- **Some statements are others that are read again**, one piece after the other. -/
inductive Rereading : List Node → List Node → Prop where
  | nil : Rereading [] []
  | added {n' : Node} {ns ns' : List Node} (idle : n'.isIdle = true) (rest : Rereading ns ns') :
      Rereading ns (n' :: ns')
  | kept {n n' : Node} {ns ns' : List Node} (span : e.statement? ≠ some n.span)
      (kind : n.kind ≠ .object) (same : Kept m m' ((e.untitled? m).map Node.start) n n')
      (rest : Rereading ns ns') : Rereading (n :: ns) (n' :: ns')
  | renamed {v n d x : Node} {ns ns' : List Node} (value : e.value? = some v)
      (made : Renamed m m' e v n d x) (rest : Rereading ns ns') :
      Rereading (n :: ns) (d :: x :: ns')

end

variable {m m' : Module} {e : MetaExport}

theorem renamed_of_renames {v n d x : Node} (h : m.renames m' e v n d x = true) :
    Renamed m m' e v n d x := by
  unfold renames at h
  simp only [Bool.and_eq_true, decide_eq_true_eq, Option.any_eq_true] at h
  obtain ⟨⟨⟨⟨⟨⟨⟨h1, h2⟩, h3⟩, h4⟩, h5⟩, h6⟩, h7⟩, h8⟩ := h
  refine ⟨h1, h2, h3, ?_, h5, h6, h7, h8⟩
  split at h4
  · next w hw =>
    rw [Bool.and_eq_true, decide_eq_true_eq, Option.any_eq_true] at h4
    obtain ⟨hname, v', hv, hkept⟩ := h4
    exact ⟨w, v', hw, hname, hv, hkept⟩
  · exact absurd h4 Bool.false_ne_true

theorem rereading_of_rereads {ps : List Piece} {ns ns' : List Node}
    (h : m.rereads m' e ps ns ns' = true) : Rereading m m' e ns ns' := by
  fun_induction rereads m m' e ps ns ns' with
  | case1 ns ns' =>
    rw [Bool.and_eq_true, List.isEmpty_iff, List.isEmpty_iff] at h
    rw [h.1, h.2]
    exact .nil
  | case2 ps ns n' ns' ih =>
    obtain ⟨h1, h2⟩ := Bool.and_eq_true_iff.mp h
    exact .added h1 (ih h2)
  | case3 ps n ns n' ns' ih =>
    simp only [Bool.and_eq_true, decide_eq_true_eq] at h
    obtain ⟨⟨⟨hspan, hn⟩, hk⟩, h2⟩ := h
    exact .kept hspan hn hk (ih h2)
  | case4 ps n ns d x ns' ih =>
    rw [Bool.and_eq_true, Option.any_eq_true] at h
    obtain ⟨⟨v, hv, h1⟩, h2⟩ := h
    exact .renamed hv (renamed_of_renames h1) (ih h2)
  | case5 => exact absurd h Bool.false_ne_true

end Module

/-! ## what is declared -/

theorem Node.kind_of_mem_declaratorsIn {s v : Node} (h : v ∈ s.declaratorsIn) :
    v.kind = .variableDeclarator := by
  obtain ⟨d, -, h⟩ := List.mem_flatMap.mp h
  rcases List.mem_append.mp h with h | h
  · split at h
    · next hd =>
      rw [List.mem_singleton.mp h]
      exact hd
    · cases h
  · split at h
    · exact of_decide_eq_true (List.mem_filter.mp h).2
    · cases h

namespace Module

/-- the variables of some statements, in order -/
def declaredBy (m : Module) (ns : List Node) : List Binding :=
  ns.flatMap fun s => s.declaratorsIn.filterMap fun v => v.bindingIn? m s

variable {m m' : Module} {e : MetaExport}

theorem declaredBy_cons (m : Module) (n : Node) (ns : List Node) :
    m.declaredBy (n :: ns) =
      n.declaratorsIn.filterMap (fun v => v.bindingIn? m n) ++ m.declaredBy ns := rfl

theorem declaredBy_cons_of_isEmpty {n : Node} (h : n.declaratorsIn.isEmpty = true)
    (ns : List Node) : m.declaredBy (n :: ns) = m.declaredBy ns := by
  rw [declaredBy_cons, List.isEmpty_iff.mp h]
  rfl

theorem declared_eq_declaredBy {m : Module} (h : m.tree.kind = .program) :
    m.declared = m.declaredBy m.tree.children := by
  unfold declared topLevel
  rw [if_pos h]
  rfl

/-- two bindings of one name, the second one read again -/
def SameBinding (m m' : Module) (e : MetaExport) (b b' : Binding) : Prop :=
  b'.name = b.name ∧ Kept m m' ((e.untitled? m).map Node.start) b.declarator b'.declarator

/-- the variables of a statement that is read again -/
theorem sameBinding_of_kept {n n' : Node}
    (h : Kept m m' ((e.untitled? m).map Node.start) n n') (hn : n.kind ≠ .object) :
    List.Forall₂ (SameBinding m m' e) (n.declaratorsIn.filterMap fun v => v.bindingIn? m n)
      (n'.declaratorsIn.filterMap fun v => v.bindingIn? m' n') := by
  have hd := h.declaratorsIn hn
  have hk : ∀ v ∈ n.declaratorsIn, v.kind ≠ .object := fun v hv => by
    rw [kind_of_mem_declaratorsIn hv]
    decide
  generalize n.declaratorsIn = vs at hd hk ⊢
  generalize n'.declaratorsIn = vs' at hd ⊢
  induction hd with
  | nil => exact .nil
  | @cons v v' vs vs' hv _ ih =>
    have ih' := ih fun w hw => hk w (List.mem_cons_of_mem _ hw)
    rw [List.filterMap_cons, List.filterMap_cons]
    unfold Node.bindingIn?
    rw [hv.boundName? (hk v List.mem_cons_self)]
    cases v.boundName? m with
    | none => exact ih'
    | some name => exact .cons ⟨rfl, hv⟩ ih'

theorem find?_sameBinding {bs bs' cs cs' : List Binding} (name : Text)
    (h : List.Forall₂ (SameBinding m m' e) bs bs')
    (hrest : Option.Rel (SameBinding m m' e) (cs.find? fun b => b.name = name)
      (cs'.find? fun b => b.name = name)) :
    Option.Rel (SameBinding m m' e) ((bs ++ cs).find? fun b => b.name = name)
      ((bs' ++ cs').find? fun b => b.name = name) := by
  induction h with
  | nil => exact hrest
  | @cons b b' bs bs' hb _ ih =>
    rw [List.cons_append, List.cons_append, List.find?_cons, List.find?_cons, hb.1]
    split
    · exact .some hb
    · exact ih

/-- **The variables that are declared**, the one of the meta object apart. -/
theorem Rereading.find?_declaredBy {ns ns' : List Node} {name : Text}
    (h : Rereading m m' e ns ns') (hname : name ≠ MetaExport.binding) :
    Option.Rel (SameBinding m m' e) ((m.declaredBy ns).find? fun b => b.name = name)
      ((m'.declaredBy ns').find? fun b => b.name = name) := by
  induction h with
  | nil => exact .none
  | added idle _ ih =>
    rw [declaredBy_cons_of_isEmpty (Bool.and_eq_true_iff.mp idle).2]
    exact ih
  | kept _ kind same _ ih => exact find?_sameBinding name (sameBinding_of_kept same kind) ih
  | renamed _ made _ ih =>
    obtain ⟨w, v', hw, hbound, -, -⟩ := made.declared
    rw [declaredBy_cons_of_isEmpty made.bare, declaredBy_cons,
      declaredBy_cons_of_isEmpty made.bare', hw, List.filterMap_cons]
    unfold Node.bindingIn?
    rw [hbound]
    show Option.Rel _ _ (List.find? _ (_ :: _))
    rw [List.find?_cons_of_neg fun hb => hname (of_decide_eq_true hb).symm]
    exact ih

/-- bindings of other names are passed over -/
theorem find?_of_ne {bs bs' cs' : List Binding} {name : Text}
    (h : List.Forall₂ (SameBinding m m' e) bs bs') (hne : ∀ b ∈ bs, b.name ≠ name) :
    (bs' ++ cs').find? (fun b => b.name = name) = cs'.find? fun b => b.name = name := by
  induction h with
  | nil => rfl
  | @cons b b' bs bs' hb _ ih =>
    have hb' : b'.name ≠ name := hb.1 ▸ hne b List.mem_cons_self
    rw [List.cons_append, List.find?_cons, decide_eq_false hb']
    exact ih fun c hc => hne c (List.mem_cons_of_mem _ hc)

/-- **The variable of the meta object**, where no other has its name. -/
theorem Rereading.find?_renamed {ns ns' : List Node} {v : Node} (h : Rereading m m' e ns ns')
    (hv : e.value? = some v) (hs : ∃ n ∈ ns, e.statement? = some n.span)
    (hne : ∀ b ∈ m.declaredBy ns, b.name ≠ MetaExport.binding) :
    ∃ b' v', (m'.declaredBy ns').find? (fun b => b.name = MetaExport.binding) = some b' ∧
      b'.declarator.child? .value = some v' ∧
        Kept m m' ((e.untitled? m).map Node.start) v v' := by
  induction h with
  | nil =>
    obtain ⟨n, hn, -⟩ := hs
    cases hn
  | added idle _ ih =>
    rw [declaredBy_cons_of_isEmpty (Bool.and_eq_true_iff.mp idle).2]
    exact ih hs hne
  | @kept n n' ns ns' span kind same _ ih =>
    obtain ⟨s, hmem, hs⟩ := hs
    have hs' : ∃ n ∈ ns, e.statement? = some n.span := by
      rcases List.mem_cons.mp hmem with rfl | hmem
      · exact absurd hs span
      · exact ⟨s, hmem, hs⟩
    rw [declaredBy_cons] at hne
    rw [declaredBy_cons, find?_of_ne (sameBinding_of_kept same kind) fun b hb =>
      hne b (List.mem_append_left _ hb)]
    exact ih hs' fun b hb => hne b (List.mem_append_right _ hb)
  | @renamed v₀ n d x ns ns' value made _ _ =>
    obtain rfl : v₀ = v := Option.some.inj (value.symm.trans hv)
    obtain ⟨w, v', hw, hbound, hvalue, hkept⟩ := made.declared
    refine ⟨⟨MetaExport.binding, w, ⟨d, [m'.tree]⟩⟩, v', ?_, hvalue, hkept⟩
    rw [declaredBy_cons, hw, List.filterMap_cons]
    unfold Node.bindingIn?
    rw [hbound]
    exact List.find?_cons_of_pos (decide_eq_true rfl)

end Module

/-! ## what is exported -/

theorem Statement.ofNode_of_isIdle {n : Node} (h : n.isIdle = true) : ofNode n = .other := by
  unfold Node.isIdle at h
  unfold ofNode
  split <;> first | rfl | (next hk => rw [hk] at h; cases h)

theorem Statement.mem_of_ofNode_clause {n s c : Node} (h : ofNode n = .clause s c) :
    c ∈ n.children := by
  unfold ofNode at h
  split at h
  · unfold ofExport at h
    split at h
    · split at h <;> cases h
    · split at h
      · split at h <;> cases h
      · split at h
        · next c' hfind =>
          split at h
          · cases h
          · cases h
            exact List.mem_of_mem_filter (List.mem_of_find?_eq_some hfind)
        · cases h
  all_goals cases h

theorem Statement.ofNode_lexicalDeclaration {d : Node} (h : d.kind = .lexicalDeclaration) :
    ofNode d = .localVariables d := by
  unfold ofNode
  rw [h]

theorem MetaExport.ofStatement_of_isIdle {m : Module} {n : Node} (h : n.isIdle = true) :
    ofStatement m n = [] := by
  unfold ofStatement
  rw [Statement.ofNode_of_isIdle h]

theorem MetaExport.ofStatement_lexicalDeclaration {m : Module} {d : Node}
    (h : d.kind = .lexicalDeclaration) : ofStatement m d = [] := by
  unfold ofStatement
  rw [Statement.ofNode_lexicalDeclaration h]

theorem Scenario.ofStatement_of_isIdle {m : Module} {bs : Bindings} {n : Node}
    (h : n.isIdle = true) : ofStatement m bs n = [] := by
  unfold ofStatement
  rw [Statement.ofNode_of_isIdle h]

theorem Scenario.ofStatement_lexicalDeclaration {m : Module} {bs : Bindings} {d : Node}
    (h : d.kind = .lexicalDeclaration) : ofStatement m bs d = [] := by
  unfold ofStatement
  rw [Statement.ofNode_lexicalDeclaration h]

/-- a statement with the keyword `default` exports no other name -/
theorem Scenario.ofStatement_default (m : Module) (bs : Bindings) {n : Node}
    (h : n.hasChild .defaultKeyword = true) : ofStatement m bs n = [] := by
  unfold ofStatement Statement.ofNode
  split <;> try rfl
  all_goals
    next heq =>
      split at heq
      · unfold Statement.ofExport at heq
        rw [if_pos h] at heq
        split at heq <;> cases heq
      all_goals cases heq

namespace MetaExport

variable {m : Module} {n s v o : Node}

theorem eq_of_inline_mem (h : .inline s v o ∈ ofStatement m n) : n = s := by
  unfold ofStatement at h
  split at h
  · next s' w hst =>
    obtain ⟨rfl, -⟩ := Statement.ofNode_eq_defaultExport hst
    exact (ofValue_eq_inline (List.mem_singleton.mp h).symm).1
  · obtain ⟨x, -, hx⟩ := List.mem_map.mp h
    cases hx
  · cases h

theorem ofStatement_alias {x i : Node} (hx : x.kind = .exportStatement)
    (hdef : x.hasChild .defaultKeyword = true) (hi : x.child? .value = some i)
    (hk : i.kind = .identifier) : ofStatement m x = [.aliased (m.textOf i)] := by
  have hnode : Statement.ofNode x = .defaultExport x i := by
    rw [Statement.ofNode_export hx, Statement.ofExport, if_pos hdef, hi]
    rfl
  unfold ofStatement
  rw [hnode]
  show [ofValue m x i] = _
  rw [ofValue, if_pos hk]

/-- only statements export -/
theorem all_eq (m : Module) : all m = m.tree.children.flatMap (ofStatement m) := by
  have hnil : ∀ n : Node, n.kind.isNamed = false ∨ n.kind = .comment → ofStatement m n = [] := by
    intro n hn
    have hother : Statement.ofNode n = .other := by
      unfold Statement.ofNode
      split <;> first | rfl | (next hk => rw [hk] at hn; cases hn <;> contradiction)
    unfold ofStatement
    rw [hother]
  unfold all Module.statements Node.named
  induction m.tree.children with
  | nil => rfl
  | cons n ns ih =>
    rw [List.flatMap_cons, ← ih, List.filter_cons]
    by_cases hn : n.kind.isNamed = true
    · rw [if_pos hn, List.filter_cons]
      by_cases hc : n.kind = .comment
      · rw [hnil n (Or.inr hc), hc]
        rfl
      · rw [if_pos (by simpa using hc), List.flatMap_cons]
    · rw [if_neg hn, hnil n (Or.inl (Bool.eq_false_iff.mpr hn))]
      rfl

/-- a default export that has the shape and the name of another one -/
theorem eq_again {e e' : MetaExport} (hshape : e'.shape = e.shape)
    (hname : e'.name = e.name) (hs : e.statement? = none) : e' = e.again := by
  cases e with
  | inline s v o => cases hs
  | aliased name =>
    cases e' with
    | aliased name' => exact congrArg aliased hname
    | inline s v o => cases hshape
    | unrecognized => cases hshape
  | unrecognized =>
    cases e' with
    | aliased name => cases hshape
    | inline s v o => cases hshape
    | unrecognized => rfl

end MetaExport

/-- the first default export of a statement that is read again, unless it has given way to others -/
theorem Node.Kept.head?_metaExports {m m' : Module} {e : MetaExport} {at? : Option Nat}
    {n n' : Node} (h : Kept m m' at? n n') {es : List MetaExport} (hes : MetaExport.ofStatement m n = e :: es)
    (hspan : e.statement? ≠ some n.span) :
    ∃ es', MetaExport.ofStatement m' n' = e.again :: es' := by
  have hmap := h.metaExports
  rw [hes] at hmap
  obtain ⟨e', es', hes', he', -⟩ := List.map_eq_cons_iff.mp hmap
  have hnone : e.statement? = none := by
    cases e with
    | inline s v o =>
      have hmem : .inline s v o ∈ MetaExport.ofStatement m n := hes ▸ List.mem_cons_self
      rw [MetaExport.eq_of_inline_mem hmem] at hspan
      exact absurd rfl hspan
    | aliased name => rfl
    | unrecognized => rfl
  obtain rfl : e' = e.again :=
    MetaExport.eq_again (congrArg Prod.fst he') (congrArg Prod.snd he') hnone
  exact ⟨es', hes'⟩

namespace Module

variable {m m' : Module} {e : MetaExport}

/-- **The meta object is exported by the name that it was given.** -/
theorem Rereading.head? {ns ns' : List Node} (h : Rereading m m' e ns ns')
    (he : (ns.flatMap (MetaExport.ofStatement m)).head? = some e) :
    (ns'.flatMap (MetaExport.ofStatement m')).head? = some e.again := by
  induction h with
  | nil => cases he
  | added idle _ ih =>
    rw [List.flatMap_cons, MetaExport.ofStatement_of_isIdle idle]
    exact ih he
  | @kept n n' ns ns' span _ same _ ih =>
    rw [List.flatMap_cons] at he ⊢
    cases hes : MetaExport.ofStatement m n with
    | nil =>
      have hmap := same.metaExports
      rw [hes] at hmap he
      rw [List.map_eq_nil_iff.mp hmap]
      exact ih he
    | cons e₀ es =>
      rw [hes] at he
      obtain rfl : e₀ = e := Option.some.inj he
      obtain ⟨es', hes'⟩ := same.head?_metaExports hes span
      rw [hes']
      rfl
  | renamed value made _ _ =>
    obtain ⟨i, hi, hk, htext⟩ := made.exported
    rw [List.flatMap_cons, List.flatMap_cons,
      MetaExport.ofStatement_lexicalDeclaration made.declaration,
      MetaExport.ofStatement_alias made.kind made.keyword' hi hk, htext]
    cases e with
    | inline s v o => rfl
    | aliased name => cases value
    | unrecognized => cases value

/-- **The names that are exported**, where the same names are bound. -/
theorem Rereading.exports {ns ns' : List Node} {bs bs' : Bindings} (h : Rereading m m' e ns ns')
    (hbs : ∀ n ∈ ns, ∀ s c, Statement.ofNode n = .clause s c → ∀ x ∈ ExportName.ofClause m c,
      (bs'.get? x.bound).isSome = (bs.get? x.bound).isSome) :
    (ns'.flatMap (Scenario.ofStatement m' bs')).map ExportedName.label =
      (ns.flatMap (Scenario.ofStatement m bs)).map ExportedName.label := by
  induction h with
  | nil => rfl
  | added idle _ ih =>
    rw [List.flatMap_cons, Scenario.ofStatement_of_isIdle idle]
    exact ih hbs
  | kept _ _ same _ ih =>
    rw [List.flatMap_cons, List.flatMap_cons, List.map_append, List.map_append,
      Kept.exports same (hbs _ List.mem_cons_self),
      ih fun c hc => hbs c (List.mem_cons_of_mem _ hc)]
  | renamed _ made _ ih =>
    rw [List.flatMap_cons, List.flatMap_cons, List.flatMap_cons,
      Scenario.ofStatement_lexicalDeclaration made.declaration,
      Scenario.ofStatement_default m' bs' made.keyword',
      Scenario.ofStatement_default m bs made.keyword]
    exact ih fun c hc => hbs c (List.mem_cons_of_mem _ hc)

/-! ## names that are spared -/

namespace Spares

variable {name : Text} (h : m.Spares name)
include h

theorem textOf_ne {n : Node} (hn : m.Has n) (hw : n.isWord = true) : m.textOf n ≠ name :=
  h _ hn.choose_spec hw

theorem textOf_child_ne {n c : Node} (hn : m.Has n) (hc : n.child? .name = some c) :
    m.textOf c ≠ name := by
  obtain ⟨hmem, hrole⟩ := Node.mem_of_child? hc
  refine h.textOf_ne (hn.child hmem) ?_
  unfold Node.isWord
  simp [hrole]

theorem declaredBy_ne {b : Binding} (hb : b ∈ m.declared) : b.name ≠ name := by
  obtain ⟨s, hs, hb⟩ := List.mem_flatMap.mp hb
  obtain ⟨v, hv, hvb⟩ := List.mem_filterMap.mp hb
  obtain ⟨n, hn, rfl⟩ := Option.map_eq_some_iff.mp hvb
  have hhas := Module.has_of_declaratorsIn (Module.has_of_topLevel hs) hv
  unfold Node.boundName? at hn
  split at hn
  · next c hc =>
    split at hn
    · rw [← Option.some.inj hn]
      exact h.textOf_child_ne hhas hc
    · cases hn
  · cases hn

theorem bound_ne {n c s : Node} {x : ExportName} (hn : m.Has n)
    (hc : Statement.ofNode n = .clause s c) (hx : x ∈ ExportName.ofClause m c) :
    x.bound ≠ name := by
  have hmem : c ∈ n.children := Statement.mem_of_ofNode_clause hc
  obtain ⟨p, hp, hpx⟩ := List.mem_filterMap.mp hx
  have hhas : m.Has p := (hn.child hmem).child (List.mem_of_mem_filter hp)
  unfold ExportName.ofSpecifier? at hpx
  split at hpx
  · obtain ⟨b, hb, rfl⟩ := Option.map_eq_some_iff.mp hpx
    exact h.textOf_child_ne hhas hb
  · cases hpx

theorem alias_ne {nm : Text} (he : .aliased nm ∈ MetaExport.all m) : nm ≠ name := by
  rw [MetaExport.all_eq] at he
  obtain ⟨n, hn, he⟩ := List.mem_flatMap.mp he
  have hhas : m.Has n := (Module.has_root m).child hn
  unfold MetaExport.ofStatement at he
  split at he
  · next s v hst =>
    obtain ⟨rfl, -, -, hv⟩ := Statement.ofNode_eq_defaultExport hst
    have hmem : v ∈ n.children := (Node.mem_of_exported hv).1
    have he' := List.mem_singleton.mp he
    unfold MetaExport.ofValue at he'
    split at he'
    · next hk =>
      rw [MetaExport.aliased.inj he']
      refine h.textOf_ne (hhas.child hmem) ?_
      unfold Node.isWord
      rw [hk]
      rfl
    · split at he' <;> cases he'
  · next s c hst =>
    obtain ⟨x, hx, hxn⟩ := List.mem_map.mp he
    rw [← MetaExport.aliased.inj hxn]
    exact h.bound_ne hhas hst (List.mem_of_mem_filter hx)
  · cases he

end Spares

/-! ## a module that is read again -/

namespace Reread

variable (h : m.Reread m') (he : (MetaExport.all m).head? = some e)
include h he

theorem rereading : Rereading m m' e m.tree.children m'.tree.children := by
  obtain ⟨e', ps, he', hps⟩ := h.statements
  obtain rfl : e' = e := Option.some.inj (he'.symm.trans he)
  exact rereading_of_rereads hps

theorem head? : (MetaExport.all m').head? = some e.again := by
  have hread := h.rereading he
  rw [MetaExport.all_eq] at he ⊢
  exact hread.head? he

theorem declared? {name : Text} (hname : name ≠ MetaExport.binding) :
    Option.Rel (SameBinding m m' e) (m.declared? name) (m'.declared? name) := by
  unfold Module.declared?
  rw [declared_eq_declaredBy h.program, declared_eq_declaredBy h.program']
  exact (h.rereading he).find?_declaredBy hname

theorem objectOf? {name : Text} (hname : name ≠ MetaExport.binding) :
    Option.Rel (Kept m m' ((e.untitled? m).map Node.start)) (m.objectOf? name)
      (m'.objectOf? name) := by
  have hkind : ∀ b, m.declared? name = some b → b.declarator.kind ≠ .object := by
    intro b hb
    obtain ⟨s, -, -, hd⟩ := Bindings.mem_topLevel_of_declared? hb
    rw [kind_of_mem_declaratorsIn hd]
    decide
  have hrel := h.declared? he hname
  unfold Module.objectOf?
  generalize m.declared? name = b at hrel hkind ⊢
  generalize m'.declared? name = b' at hrel ⊢
  cases hrel with
  | none => exact .none
  | @some b b' hb =>
    have hv := hb.2.child? (hkind b rfl) .value
    show Option.Rel _ ((b.declarator.child? .value).bind _) ((b'.declarator.child? .value).bind _)
    generalize b.declarator.child? .value = v at hv ⊢
    generalize b'.declarator.child? .value = v' at hv ⊢
    cases hv with
    | none => exact .none
    | some hv => exact Kept.objectLiteral? _ _ hv

variable (hm : m.Regular) (hs : m.Spares MetaExport.binding)
include hm hs

/-- **The meta object says its title.** -/
theorem titled {name : Text} {o : Node} (hagain : e.again = .aliased name)
    (ho : m'.objectOf? name = some o) : o.hasTitle m' = true := by
  cases e with
  | aliased n =>
    obtain rfl : n = name := MetaExport.aliased.inj hagain
    have hrel := h.objectOf? he (hs.alias_ne (List.mem_of_mem_head? he))
    rw [ho] at hrel
    generalize hobj : m.objectOf? n = o₀ at hrel
    cases hrel with
    | @some o₀ _ hk =>
      rw [MetaExport.untitled?_aliased hobj] at hk
      have hkind : o₀.kind = .object := by
        rw [← hm.objectOf?_eq] at hobj
        exact (Meta.object_of_objectOf? hm hobj).2
      exact hk.titled hkind
  | inline s v o₀ =>
    obtain rfl : MetaExport.binding = name := MetaExport.aliased.inj hagain
    have hin := MetaExport.inline_of_mem_all (List.mem_of_mem_head? he)
    have hdecl : ∀ b ∈ m.declaredBy m.tree.children, b.name ≠ MetaExport.binding := by
      rw [← declared_eq_declaredBy h.program]
      exact fun b hb => hs.declaredBy_ne hb
    obtain ⟨b', v', hb', hv', hk⟩ :=
      (h.rereading he).find?_renamed (v := v) rfl ⟨s, hin.statement, rfl⟩ hdecl
    have hbound : m'.declared? MetaExport.binding = some b' := by
      unfold Module.declared?
      rw [declared_eq_declaredBy h.program']
      exact hb'
    have hobj := Kept.objectLiteral? _ _ hk
    rw [Module.objectOf?, hbound] at ho
    have hvalue : (b'.declarator.child? .value).bind Node.objectLiteral? = some o := ho
    rw [hv'] at hvalue
    rw [hin.object, show v'.objectLiteral? = some o from hvalue] at hobj
    cases hobj with
    | some hk =>
      have hhas := (Module.has_root m).child hin.statement
      exact hk.titled (hm.object (hhas.child hin.value) hin.object).2.1
  | unrecognized => cases hagain

/-- **The names that are exported** are the same. -/
theorem allExported (hm' : m'.Regular) :
    m'.allExported.map ExportedName.label = m.allExported.map ExportedName.label := by
  have hbs : ∀ n ∈ m.tree.children, ∀ s c, Statement.ofNode n = .clause s c →
      ∀ x ∈ ExportName.ofClause m c, ((Bindings.ofModule m').get? x.bound).isSome =
        ((Bindings.ofModule m).get? x.bound).isSome := by
    intro n hn s c hc x hx
    have hrel := h.declared? he (hs.bound_ne ((Module.has_root m).child hn) hc hx)
    rw [Bindings.get?_ofModule hm, Bindings.get?_ofModule hm']
    generalize m.declared? x.bound = b at hrel ⊢
    generalize m'.declared? x.bound = b' at hrel ⊢
    cases hrel <;> rfl
  have hexports := (h.rereading he).exports hbs
  unfold Module.allExported topLevel
  rw [if_pos h.program, if_pos h.program',
    ← List.flatMap_congr fun n _ => hm.ofStatement_eq n,
    ← List.flatMap_congr fun n _ => hm'.ofStatement_eq n]
  exact hexports

end Reread

end Module

end StorySuite
