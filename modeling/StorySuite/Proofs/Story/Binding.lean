import Mathlib.Data.List.Basic
import StorySuite.Proofs.Story.Parts

/-!
# The name of the meta object

A test module says by which name its meta object goes.  Whether that is a name of the module is told
from its parts: which names they bind at the top level, and which of them is exported by default.
A tree of the code that has these parts for statements says the same of it.

What binds names besides plain variables is up to a `Naming`: patterns, functions, classes and
imports are read by their text.

* `Naming`                   which names a text binds, of whatever kind they are;
* `Node.names`               the names that a statement binds;
* `Part.reads`               whether a node is what the text of a part says;
* `Module.Reads`             whether the statements of a tree are some parts;
* `transform_binding`        **the name of the meta object is exported, and bound as often as before,
  or once more if it was given to it**;
* `binding_unreal`           nothing keeps it from being bound twice, or not at all.
-/

namespace StorySuite

/-- the names that registrations take from other modules -/
def importedNames : List Text := ["__test", "__composeStories", "__testStory"]

/-- **A way to tell the names that a text binds**, which knows the statements that are added. -/
structure Naming where
  /-- the names in a pattern -/
  pattern : Text → List Text
  /-- the names that a statement binds which declares no variables -/
  statement : Text → List Text
  registration : ∀ name tags, statement (Scenario.registration name tags) = []
  imports : Story.imports.flatMap statement = importedNames

namespace Node

section
variable (w : Naming) (m : Module)

/-- the names that a declarator binds -/
def targets (v : Node) : List Text :=
  match v.child? .name with
  | some c => if c.kind = .identifier then [m.textOf c] else w.pattern (m.textOf c)
  | none => []

/-- whether a statement exports a value by default, which binds no name -/
def exportsValue (n : Node) : Bool :=
  n.kind = .exportStatement && n.hasChild .defaultKeyword && (n.child? .value).isSome

/-- **The names that a statement binds.** -/
def names (n : Node) : List Text :=
  if n.declaratorsIn.isEmpty = true then
    if n.exportsValue = true then [] else w.statement (m.textOf n)
  else n.declaratorsIn.flatMap (targets w m)

end

end Node

def Module.names (w : Naming) (m : Module) : List Text := m.statements.flatMap (Node.names w m)

/-- the names that the statements of a module bind, the one apart that gives way to others -/
def Module.namesApart (w : Naming) (m : Module) (e : MetaExport) : List Text :=
  (m.statements.filter fun n => e.statement? ≠ some n.span).flatMap (Node.names w m)

namespace Part

def names (w : Naming) (m : Module) : Part → List Text
  | gap _ => []
  | kept n _ => n.names w m
  | registration name tags => w.statement (Scenario.registration name tags)
  | named _ _ => [MetaExport.binding]
  | exported => []
  | needed t => w.statement t

def defaults (m : Module) : Part → List MetaExport
  | kept n _ => MetaExport.ofStatement m n
  | exported => [.aliased MetaExport.binding]
  | _ => []

def isStatement : Part → Bool
  | gap _ => false
  | _ => true

section
variable (m m' : Module) (e : MetaExport)

/-- whether a node has the form of a part -/
def hasForm : Part → Node → Bool
  | gap _, _ => false
  | kept n _, n' => n.kind ≠ .object && Node.keeps m m' ((e.untitled? m).map Node.start) n n'
  | registration _ _, n' => n'.isIdle
  | named v _, n' =>
    n'.kind = .lexicalDeclaration &&
      match n'.declaratorsIn with
      | [d] => d.boundName? m' = some MetaExport.binding &&
          (d.child? .value).any (Node.keeps m m' ((e.untitled? m).map Node.start) v)
      | _ => false
  | exported, n' =>
    n'.kind = .exportStatement && n'.hasChild .defaultKeyword && n'.declaratorsIn.isEmpty &&
      (n'.child? .value).any fun i => i.kind = .identifier && m'.textOf i = MetaExport.binding
  | needed _, n' => n'.isIdle

/-- **Whether a node of the module `m'` is what the part `p` says**, letter for letter. -/
def reads (p : Part) (n' : Node) : Bool := m'.textOf n' = p.text && p.hasForm m m' e n'

end

end Part

/-- **The statements of the module `m'` are the parts `ps`**, which are made of `m`. -/
def Module.Reads (m m' : Module) (e : MetaExport) (ps : List Part) : Prop :=
  List.Forall₂ (fun p n => p.reads m m' e n = true) (ps.filter Part.isStatement) m'.statements

instance decidableReads (m m' : Module) (e : MetaExport) (ps : List Part) :
    Decidable (m.Reads m' e ps) :=
  inferInstanceAs (Decidable (List.Forall₂ _ _ _))

/-! ## what is read -/

namespace Node

variable {w : Naming} {m m' : Module} {at? : Option Nat} {n n' : Node}

theorem Kept.targets (h : Kept m m' at? n n') (hn : n.kind ≠ .object) :
    n'.targets w m' = n.targets w m := by
  have hc := h.child? hn .name
  have hname : ∀ c, n.child? .name = some c → ∀ c', Kept m m' at? c c' →
      m'.textOf c' = m.textOf c ∧ c'.kind = c.kind :=
    fun c hc c' hk => ⟨hk.textOf_child (Or.inl rfl) hc, hk.kind_eq⟩
  unfold Node.targets
  generalize n.child? .name = o at hc hname ⊢
  generalize n'.child? .name = o' at hc ⊢
  cases hc with
  | none => rfl
  | some hk =>
    obtain ⟨h1, h2⟩ := hname _ rfl _ hk
    simp only [h1, h2]

theorem Kept.exportsValue (h : Kept m m' at? n n') (hn : n.kind ≠ .object) :
    n'.exportsValue = n.exportsValue := by
  have hv := h.child? hn .value
  unfold Node.exportsValue
  rw [h.kind_eq, h.hasChild_eq hn]
  generalize n.child? .value = o at hv ⊢
  generalize n'.child? .value = o' at hv ⊢
  cases hv <;> rfl

/-- a statement that is read again binds the same names, if it is written as before where its text
says them -/
theorem Kept.names (h : Kept m m' at? n n') (hn : n.kind ≠ .object)
    (ht : n.declaratorsIn.isEmpty = true → m'.textOf n' = m.textOf n) :
    n'.names w m' = n.names w m := by
  have hd := h.declaratorsIn hn
  have hempty : n'.declaratorsIn.isEmpty = n.declaratorsIn.isEmpty := by
    generalize n.declaratorsIn = vs at hd ⊢
    generalize n'.declaratorsIn = vs' at hd ⊢
    cases hd <;> rfl
  unfold Node.names
  rw [hempty, h.exportsValue hn]
  by_cases hnone : n.declaratorsIn.isEmpty = true
  · rw [if_pos hnone, if_pos hnone, ht hnone]
  · rw [if_neg hnone, if_neg hnone]
    have hk : ∀ v ∈ n.declaratorsIn, v.kind ≠ .object := fun v hv => by
      rw [kind_of_mem_declaratorsIn hv]
      decide
    clear hempty hnone ht
    generalize n.declaratorsIn = vs at hd hk
    generalize n'.declaratorsIn = vs' at hd
    induction hd with
    | nil => rfl
    | @cons v v' vs vs' hv _ ih =>
      rw [List.flatMap_cons, List.flatMap_cons, hv.targets (hk v List.mem_cons_self),
        ih fun x hx => hk x (List.mem_cons_of_mem _ hx)]

theorem names_of_isIdle (h : n.isIdle = true) : n.names w m = w.statement (m.textOf n) := by
  unfold isIdle at h
  simp only [Bool.and_eq_true, bne_iff_ne] at h
  obtain ⟨⟨⟨hk, -⟩, -⟩, hempty⟩ := h
  unfold names exportsValue
  rw [if_pos hempty, decide_eq_false hk]
  rfl

theorem targets_of_boundName? {v : Node} {name : Text} (h : v.boundName? m = some name) :
    v.targets w m = [name] := by
  unfold boundName? at h
  unfold targets
  cases hc : v.child? .name with
  | none =>
    rw [hc] at h
    cases h
  | some c =>
    rw [hc] at h
    have h' : (if c.kind = .identifier then some (m.textOf c) else none) = some name := h
    show (if c.kind = .identifier then [m.textOf c] else w.pattern (m.textOf c)) = [name]
    by_cases hk : c.kind = .identifier
    · rw [if_pos hk] at h' ⊢
      rw [Option.some.inj h']
    · rw [if_neg hk] at h'
      cases h'

end Node

namespace Part

variable {w : Naming} {m m' : Module} {e : MetaExport} {p : Part} {n' : Node}

/-- what is asked of the parts of a module: only what declares a variable is written otherwise -/
def Faithful (m : Module) : Part → Prop
  | kept n t => n.declaratorsIn.isEmpty = true → t = m.textOf n
  | _ => True

/-- **A node that is what a part says binds its names.** -/
theorem names_of_reads (h : p.reads m m' e n' = true) (hp : p.Faithful m) :
    n'.names w m' = p.names w m := by
  obtain ⟨htext, hform⟩ := Bool.and_eq_true_iff.mp h
  have htext := of_decide_eq_true htext
  cases p with
  | gap t => cases hform
  | kept n t =>
    obtain ⟨hn, hk⟩ := Bool.and_eq_true_iff.mp hform
    have hk' : Node.Kept m m' ((e.untitled? m).map Node.start) n n' := hk
    exact hk'.names (of_decide_eq_true hn) fun hempty => htext.trans (hp hempty)
  | registration name tags => exact (Node.names_of_isIdle hform).trans (congrArg w.statement htext)
  | needed t => exact (Node.names_of_isIdle hform).trans (congrArg w.statement htext)
  | named v t =>
    obtain ⟨-, hd⟩ := Bool.and_eq_true_iff.mp hform
    split at hd
    · next d hds =>
      have hname := of_decide_eq_true (Bool.and_eq_true_iff.mp hd).1
      unfold Node.names
      rw [hds]
      show [d].flatMap (Node.targets w m') = _
      rw [List.flatMap_singleton, Node.targets_of_boundName? hname]
      rfl
    · cases hd
  | exported =>
    simp only [hasForm, Bool.and_eq_true, decide_eq_true_eq, Option.any_eq_true] at hform
    obtain ⟨⟨⟨hk, hdef⟩, hempty⟩, i, hi, -⟩ := hform
    unfold Node.names Node.exportsValue
    rw [if_pos hempty, decide_eq_true hk, hdef, hi]
    rfl

/-- **It makes the same default exports.** -/
theorem defaults_of_reads (h : p.reads m m' e n' = true) :
    ((MetaExport.ofStatement m' n').map fun e => (e.shape, e.name)) =
      (p.defaults m).map fun e => (e.shape, e.name) := by
  obtain ⟨-, hform⟩ := Bool.and_eq_true_iff.mp h
  cases p with
  | gap t => cases hform
  | kept n t =>
    have hk : Node.Kept m m' ((e.untitled? m).map Node.start) n n' :=
      (Bool.and_eq_true_iff.mp hform).2
    exact hk.metaExports
  | registration name tags =>
    rw [MetaExport.ofStatement_of_isIdle hform]
    rfl
  | needed t =>
    rw [MetaExport.ofStatement_of_isIdle hform]
    rfl
  | named v t =>
    rw [MetaExport.ofStatement_lexicalDeclaration
      (of_decide_eq_true (Bool.and_eq_true_iff.mp hform).1)]
    rfl
  | exported =>
    simp only [hasForm, Bool.and_eq_true, decide_eq_true_eq, Option.any_eq_true] at hform
    obtain ⟨⟨⟨hk, hdef⟩, -⟩, i, hi, hik, htext⟩ := hform
    rw [MetaExport.ofStatement_alias hk hdef hi hik, htext]
    rfl

end Part

/-! ## the parts of a module -/

theorem flatMap_filter {α β : Type} (q : α → Bool) (g : α → List β) (l : List α) :
    (l.filter q).flatMap g = l.flatMap fun x => if q x = true then g x else [] := by
  induction l with
  | nil => rfl
  | cons x l ih =>
    rw [List.flatMap_cons, ← ih, List.filter_cons]
    split
    · rfl
    · rfl

theorem count_flatMap_ite {α : Type} (c : α → Prop) [DecidablePred c] (g : α → List Text)
    (b x : Text) (l : List α) :
    (l.flatMap fun a => if c a then [b] else g a).count x =
      ((l.filter fun a => ¬ c a).flatMap g).count x + if x = b then l.countP c else 0 := by
  induction l with
  | nil => simp
  | cons a l ih =>
    rw [List.flatMap_cons, List.count_append, ih, List.filter_cons, List.countP_cons]
    by_cases ha : c a
    · by_cases hx : x = b
      · subst hx
        simp [ha]
        omega
      · simp [ha, hx, Ne.symm hx]
    · simp [ha]
      omega

theorem Part.flatMap_isStatement {β : Type} {g : Part → List β} (hgap : ∀ t, g (.gap t) = [])
    (ps : List Part) : (ps.filter Part.isStatement).flatMap g = ps.flatMap g := by
  rw [flatMap_filter]
  refine List.flatMap_congr fun p _ => ?_
  cases p with
  | gap t => exact (hgap t).symm
  | kept n t => rfl
  | registration name tags => rfl
  | named v t => rfl
  | exported => rfl
  | needed t => rfl

namespace Module

variable {m : Module} {tags title : Text} {e : MetaExport}

theorem forall_registrations {P : Part → Prop} (hgap : ∀ t, P (.gap t))
    (hregistration : ∀ name, P (.registration name tags)) (n : Nat) :
    ∀ p ∈ m.registrations tags n, P p := by
  intro p hp
  obtain ⟨c, -, hc⟩ := List.mem_flatMap.mp hp
  rcases List.mem_cons.mp hc with rfl | hc
  · exact hregistration c.name
  · rw [List.mem_singleton.mp hc]
    exact hgap _

theorem forall_partsFrom {P : Part → Prop} (hgap : ∀ t, P (.gap t))
    (hregistration : ∀ name, P (.registration name tags)) {f : Node → List Part} {ns : List Node}
    (hf : ∀ n ∈ ns, ∀ p ∈ f n, P p) (a b : Nat) : ∀ p ∈ m.partsFrom tags f b a ns, P p := by
  have hplaced : ∀ k ps, (∀ p ∈ ps, P p) → ∀ p ∈ m.placed tags k ps, P p := by
    intro k ps hps
    refine List.forall_mem_append.mpr ⟨?_, hps⟩
    split
    · exact nofun
    · exact forall_registrations hgap hregistration k
  have hone : ∀ t, ∀ p ∈ [Part.gap t], P p := fun t p hp => by
    rw [List.mem_singleton.mp hp]
    exact hgap t
  induction ns generalizing a with
  | nil => exact hplaced a _ (hone _)
  | cons n ns ih =>
    rw [partsFrom, List.forall_mem_append, List.forall_mem_append]
    exact ⟨⟨hplaced a _ (hone _), hplaced n.start _ (hf n List.mem_cons_self)⟩,
      ih (fun x hx => hf x (List.mem_cons_of_mem _ hx)) n.stop⟩

theorem flatMap_partsFrom {β : Type} {g : Part → List β} (hgap : ∀ t, g (.gap t) = [])
    (hregistration : ∀ name, g (.registration name tags) = []) (f : Node → List Part)
    (ns : List Node) (a b : Nat) :
    (m.partsFrom tags f b a ns).flatMap g = ns.flatMap fun n => (f n).flatMap g := by
  have hplaced : ∀ k ps, (m.placed tags k ps).flatMap g = ps.flatMap g := by
    intro k ps
    unfold placed
    rw [List.flatMap_append]
    split
    · rfl
    · rw [List.flatMap_eq_nil_iff.mpr (forall_registrations hgap hregistration k), List.nil_append]
  induction ns generalizing a with
  | nil => rw [partsFrom, hplaced, List.flatMap_singleton, hgap, List.flatMap_nil]
  | cons n ns ih =>
    rw [partsFrom, List.flatMap_append, List.flatMap_append, hplaced, hplaced, ih,
      List.flatMap_singleton, hgap, List.nil_append, List.flatMap_cons]

variable (hm : m.Regular) (he : (MetaExport.all m).head? = some e)
include hm he

theorem eq_of_statement? {n : Node} (hn : n ∈ m.tree.children)
    (h : e.statement? = some n.span) : ∃ v o, e = .inline n v o := by
  cases e with
  | inline s v o =>
    have hin := MetaExport.inline_of_mem_all (List.mem_of_mem_head? he)
    have hlt := hin.start_lt_value hm
    obtain ⟨-, -, -, -, h2, h3, h4, -⟩ := hin.bounds hm
    have hspan : s.span = n.span := Option.some.inj h
    have hstart : s.start = n.start := congrArg Span.start hspan
    have hstop : s.stop = n.stop := congrArg Span.stop hspan
    rcases (row_children hm).apart hin.statement hn with rfl | h' | h'
    · exact ⟨v, o, rfl⟩
    · omega
    · omega
  | aliased name => cases h
  | unrecognized => cases h

/-- **What the parts of a module give**: what its statements do, the one apart that gives way to a
variable and its export. -/
theorem flatMap_parts {β : Type} {g : Part → List β} (hgap : ∀ t, g (.gap t) = [])
    (hregistration : ∀ name, g (.registration name tags) = []) {r : List β}
    (hr : ∀ v t, g (.named v t) ++ g .exported = r) (title : Text) :
    (m.parts tags title e).flatMap g =
      (m.statements.flatMap fun n =>
        if e.statement? = some n.span then r else g (.kept n (m.spelled title e n))) ++
        Part.imports.flatMap g := by
  have hend : (m.registrations tags m.text.size).flatMap g = [] :=
    List.flatMap_eq_nil_iff.mpr (forall_registrations hgap hregistration _)
  have heach : ∀ n ∈ m.tree.children, (m.partsOf title e n).flatMap g =
      if n.isStatement = true then
        if e.statement? = some n.span then r else g (.kept n (m.spelled title e n))
      else [] := by
    intro n hn
    by_cases hspan : e.statement? = some n.span
    · obtain ⟨v, o, rfl⟩ := eq_of_statement? hm he hn hspan
      have hkind := (MetaExport.inline_of_mem_all (List.mem_of_mem_head? he)).kind
      have hstatement : n.isStatement = true := by
        unfold Node.isStatement
        rw [hkind]
        rfl
      rw [if_pos hstatement, if_pos hspan, partsOf, if_pos rfl, List.flatMap_cons,
        List.flatMap_cons, List.flatMap_singleton, hgap, List.nil_append, hr]
    · rw [partsOf_of_ne hspan, if_neg hspan]
      unfold partsOf.plainly
      split
      · rw [List.flatMap_singleton]
      · rw [List.flatMap_singleton, hgap]
  rw [parts, List.flatMap_append, List.flatMap_append, hend, List.append_nil,
    flatMap_partsFrom hgap hregistration, List.flatMap_congr heach, statements_eq,
    flatMap_filter]

theorem names_parts (w : Naming) (tags title : Text) :
    (m.parts tags title e).flatMap (Part.names w m) =
      (m.statements.flatMap fun n =>
        if e.statement? = some n.span then [MetaExport.binding] else n.names w m) ++
        importedNames := by
  have himports : Part.imports.flatMap (Part.names w m) = importedNames := by
    unfold Part.imports
    rw [List.flatMap_assoc, ← w.imports]
    exact List.flatMap_congr fun t _ => List.append_nil _
  rw [flatMap_parts hm he (fun t => rfl) (fun name => w.registration name tags) (fun v t => rfl),
    himports]
  rfl

theorem defaults_parts (tags title : Text) :
    (m.parts tags title e).flatMap (Part.defaults m) =
      m.statements.flatMap fun n =>
        if e.statement? = some n.span then [.aliased MetaExport.binding]
        else MetaExport.ofStatement m n := by
  have himports : Part.imports.flatMap (Part.defaults m) = [] := by
    refine List.flatMap_eq_nil_iff.mpr fun p hp => ?_
    obtain ⟨t, -, hp⟩ := List.mem_flatMap.mp hp
    rcases List.mem_cons.mp hp with rfl | hp
    · rfl
    · rw [List.mem_singleton.mp hp]
      rfl
  rw [flatMap_parts hm he (fun t => rfl) (fun name => rfl) (fun v t => rfl), himports,
    List.append_nil]
  rfl

/-- **The first default export is one of the name that the meta object goes by.** -/
theorem head?_defaults (hshape : e.shape ≠ .unrecognized) (tags title : Text) :
    ((m.parts tags title e).flatMap (Part.defaults m)).head? = some (.aliased e.name) := by
  rw [defaults_parts hm he]
  have hchildren : ∀ n ∈ m.statements, n ∈ m.tree.children := fun n hn =>
    List.mem_of_mem_filter (List.mem_of_mem_filter hn)
  have hhead := he
  unfold MetaExport.all at hhead
  generalize m.statements = ns at hchildren hhead
  induction ns with
  | nil => cases hhead
  | cons n ns ih =>
    have hrest := ih fun x hx => hchildren x (List.mem_cons_of_mem _ hx)
    rw [List.flatMap_cons] at hhead ⊢
    by_cases hspan : e.statement? = some n.span
    · obtain ⟨v, o, rfl⟩ := eq_of_statement? hm he (hchildren n List.mem_cons_self) hspan
      rw [if_pos hspan]
      rfl
    · rw [if_neg hspan]
      -- the first statement that exports by default exports `e`, as it does not give way
      cases hl : MetaExport.ofStatement m n with
      | nil =>
        rw [hl] at hhead
        exact hrest hhead
      | cons e₀ es =>
        rw [hl] at hhead
        obtain rfl : e₀ = e := Option.some.inj hhead
        have hmem : e₀ ∈ MetaExport.ofStatement m n := hl ▸ List.mem_cons_self
        cases e₀ with
        | aliased name => rfl
        | inline s v o =>
          rw [MetaExport.eq_of_inline_mem hmem] at hspan
          exact absurd rfl hspan
        | unrecognized => exact absurd rfl hshape

theorem countP_statement {s v o : Node} (h : e = .inline s v o) :
    m.statements.countP (fun n => e.statement? = some n.span) = 1 := by
  subst h
  have hin := MetaExport.inline_of_mem_all (List.mem_of_mem_head? he)
  have hlt := hin.start_lt_value hm
  obtain ⟨-, -, -, -, h2, h3, h4, -⟩ := hin.bounds hm
  have hmem : s ∈ m.statements := by
    rw [statements_eq]
    refine List.mem_filter.mpr ⟨hin.statement, ?_⟩
    unfold Node.isStatement
    rw [hin.kind]
    rfl
  have hrow : Node.Row 0 m.text.size m.statements := by
    rw [statements_eq]
    exact (row_children hm).sublist List.filter_sublist
  obtain ⟨xs, ys, hsplit⟩ := List.append_of_mem hmem
  rw [hsplit] at hrow ⊢
  -- statements stand in a row, so no other covers the same bytes
  have hother : ∀ x ∈ xs ++ ys, (MetaExport.inline s v o).statement? ≠ some x.span := by
    intro x hx h
    have hspan : s.span = x.span := Option.some.inj h
    have hstart : s.start = x.start := congrArg Span.start hspan
    have hstop : s.stop = x.stop := congrArg Span.stop hspan
    have hside := hrow.sides x hx
    omega
  have hself : (fun n : Node => decide ((MetaExport.inline s v o).statement? = some n.span)) s = true :=
    decide_eq_true rfl
  rw [List.countP_append, List.countP_cons, if_pos hself,
    List.countP_eq_zero.mpr fun x hx h => hother x (by simp [hx]) (of_decide_eq_true h),
    List.countP_eq_zero.mpr fun x hx h => hother x (by simp [hx]) (of_decide_eq_true h)]

/-- **How often the parts bind a name.** -/
theorem count_names (w : Naming) (tags title name : Text) :
    ((m.parts tags title e).flatMap (Part.names w m)).count name =
      (m.namesApart w e).count name +
        (if e.shape = .inline ∧ name = MetaExport.binding then 1 else 0) +
          importedNames.count name := by
  have hsplit := count_flatMap_ite (fun n => e.statement? = some n.span) (Node.names w m)
    MetaExport.binding name m.statements
  rw [names_parts hm he, List.count_append, hsplit, namesApart]
  congr 2
  by_cases hinline : e.shape = .inline
  · cases e with
    | inline s v o =>
      rw [countP_statement hm he rfl]
      by_cases hname : name = MetaExport.binding
      · rw [if_pos hname, if_pos ⟨rfl, hname⟩]
      · rw [if_neg hname, if_neg fun h => hname h.2]
    | aliased n => cases hinline
    | unrecognized => cases hinline
  · have hnone : ∀ n ∈ m.statements, e.statement? ≠ some n.span := by
      intro n _ h
      cases e with
      | inline s v o => exact hinline rfl
      | aliased name => cases h
      | unrecognized => cases h
    rw [List.countP_eq_zero.mpr fun n hn h => hnone n hn (of_decide_eq_true h), ite_self,
      if_neg fun h => hinline h.1]

theorem faithful_parts (tags title : Text) : ∀ p ∈ m.parts tags title e, p.Faithful m := by
  have hneeded : ∀ p ∈ Part.imports, p.Faithful m := by
    intro p hp
    obtain ⟨t, -, hp⟩ := List.mem_flatMap.mp hp
    rcases List.mem_cons.mp hp with rfl | hp
    · trivial
    · rw [List.mem_singleton.mp hp]
      trivial
  rw [parts, List.forall_mem_append, List.forall_mem_append]
  refine ⟨⟨forall_partsFrom (fun t => trivial) (fun name => trivial) (fun n hn p hp => ?_) _ _,
    forall_registrations (fun t => trivial) (fun name => trivial) _⟩, hneeded⟩
  by_cases hspan : e.statement? = some n.span
  · obtain ⟨v, o, rfl⟩ := eq_of_statement? hm he hn hspan
    rw [partsOf, if_pos rfl] at hp
    simp only [List.mem_cons, List.not_mem_nil, or_false] at hp
    rcases hp with rfl | rfl | rfl <;> trivial
  · rw [partsOf_of_ne hspan] at hp
    unfold partsOf.plainly at hp
    split at hp
    · rw [List.mem_singleton.mp hp]
      exact fun hempty => spelled_eq_textOf hm he title hn hempty hspan
    · rw [List.mem_singleton.mp hp]
      trivial

end Module

/-! ## a tree that is read part by part -/

namespace Module.Reads

variable {m m' : Module} {e : MetaExport} {ps : List Part} (h : m.Reads m' e ps)
include h

theorem names_eq (w : Naming) (hps : ∀ p ∈ ps, p.Faithful m) :
    m'.names w = ps.flatMap (Part.names w m) := by
  have hfaithful : ∀ p ∈ ps.filter Part.isStatement, p.Faithful m :=
    fun p hp => hps p (List.mem_of_mem_filter hp)
  unfold Module.Reads at h
  rw [← Part.flatMap_isStatement fun t => rfl, names]
  generalize ps.filter Part.isStatement = qs at h hfaithful
  generalize m'.statements = ns at h
  induction h with
  | nil => rfl
  | @cons p n qs ns hp _ ih =>
    rw [List.flatMap_cons, List.flatMap_cons,
      Part.names_of_reads hp (hfaithful p List.mem_cons_self),
      ih fun q hq => hfaithful q (List.mem_cons_of_mem _ hq)]

theorem map_all : (MetaExport.all m').map (fun e => (e.shape, e.name)) =
    (ps.flatMap (Part.defaults m)).map fun e => (e.shape, e.name) := by
  unfold Module.Reads at h
  rw [← Part.flatMap_isStatement fun t => rfl, MetaExport.all]
  generalize ps.filter Part.isStatement = qs at h
  generalize m'.statements = ns at h
  induction h with
  | nil => rfl
  | cons hp _ ih =>
    rw [List.flatMap_cons, List.flatMap_cons, List.map_append, List.map_append, ih,
      Part.defaults_of_reads hp]

/-- **The name that is exported by default** is the one of the parts. -/
theorem head?_all {name : Text}
    (hps : (ps.flatMap (Part.defaults m)).head? = some (.aliased name)) :
    (MetaExport.all m').head? = some (.aliased name) := by
  have hmap := congrArg List.head? h.map_all
  rw [List.head?_map, List.head?_map, hps] at hmap
  obtain ⟨e', he', hlabel⟩ := Option.map_eq_some_iff.mp hmap
  rw [he']
  cases e' with
  | aliased name' => rw [show name' = name from congrArg Prod.snd hlabel]
  | inline s v o => exact nomatch (congrArg Prod.fst hlabel : MetaShape.inline = .aliased)
  | unrecognized => exact nomatch (congrArg Prod.fst hlabel : MetaShape.unrecognized = .aliased)

end Module.Reads

/-! ## the name of the meta object -/

theorem Story.ofModule_of_transform {id text : Text} {tags : TagFilter} {title : Text → Text}
    {s : Story} (h : transform id text tags title = .ok (.story s)) :
    Story.ofModule (Module.read id text) tags (title id) = .ok s := by
  unfold transform at h
  split at h
  · cases hs : Story.ofModule (Module.read id text) tags (title id) with
    | error why =>
      rw [hs] at h
      cases h
    | ok s' =>
      rw [hs] at h
      exact congrArg Except.ok (Transformed.story.inj (Except.ok.inj h))
  · cases h

/-- **The name that a test module says its meta object goes by** is what its first default export
exports.  Its statements bind that name as often as those that it is made of, and once more where
the name is given to an object without one, or is one that registrations need. -/
theorem transform_binding (w : Naming) (id text : Text) (tags : TagFilter) (title : Text → Text)
    {s : Story} {e : MetaExport} (h : transform id text tags title = .ok (.story s))
    (he : (MetaExport.all (Module.read id text)).head? = some e)
    (hshape : e.shape ≠ .unrecognized) :
    let m := Module.read id text
    let ps := m.parts tags.render (title id) e
    s.metaBinding = e.name ∧ s.code = ps.flatMap Part.text ∧
      (ps.flatMap (Part.defaults m)).head? = some (.aliased s.metaBinding) ∧
      (ps.flatMap (Part.names w m)).count s.metaBinding =
        (m.namesApart w e).count s.metaBinding + (if e.shape = .inline then 1 else 0) +
          importedNames.count s.metaBinding ∧
      ∀ n, m.Reads ⟨id, s.code, n⟩ e ps →
        (MetaExport.all ⟨id, s.code, n⟩).head? = some (.aliased s.metaBinding) ∧
          Module.names w ⟨id, s.code, n⟩ = ps.flatMap (Part.names w m) := by
  intro m ps
  have hm : m.Regular := Module.regular_read id text
  have hs : Story.ofModule m tags (title id) = .ok s := Story.ofModule_of_transform h
  obtain ⟨hbinding, -⟩ := Story.ofModule_made hm he hs
  have hhead := Module.head?_defaults hm he hshape tags.render (title id)
  have hcount := Module.count_names hm he w tags.render (title id) e.name
  have hname : (e.shape = .inline ∧ e.name = MetaExport.binding) ↔ e.shape = .inline := by
    cases e with
    | inline s v o => exact ⟨fun _ => rfl, fun _ => ⟨rfl, rfl⟩⟩
    | aliased n => exact ⟨fun h => h.1, nofun⟩
    | unrecognized => exact ⟨fun h => h.1, nofun⟩
  rw [← hbinding] at hhead
  refine ⟨hbinding, Story.code_eq_parts hm hs he, hhead, ?_, fun n hread =>
    ⟨hread.head?_all hhead, hread.names_eq w (Module.faithful_parts hm he _ _)⟩⟩
  rw [hbinding]
  simp only [hname] at hcount
  exact hcount

/-! ## names told from words -/

namespace Naming

def words (t : Text) : List Text :=
  (t.splitOnP fun c => !Grammar.isNameChar c).filter fun x => x ≠ []

/-- the names among the words of an import; one in front of `as` is another module's -/
def taken : List Text → List Text
  | x :: y :: ws =>
    if x = "from".toList then []
    else if y = "as".toList then taken ws
    else if x = "as".toList then taken (y :: ws)
    else x :: taken (y :: ws)
  | _ => []

/-- words in front of the one that says what is declared -/
def marks : List Text := ["export", "default", "async", "abstract"]

/-- the names that the words of a function, a class or an import bind -/
def ofWords : List Text → List Text
  | x :: y :: ws =>
    if x ∈ marks then ofWords (y :: ws)
    else if x = "function".toList ∨ x = "class".toList then [y]
    else if x = "import".toList then taken (y :: ws)
    else []
  | _ => []

/-- the names that are told from words alone -/
def plain : Naming where
  pattern := words
  statement t := ofWords (words t)
  registration name tags := by
    let rest : Text := Quoted.encode name ++ ", __testStory(" ++ Quoted.encode name ++
      ", import.meta.url, __composeStories, " ++ tags ++ "));"
    have hcut : Scenario.registration name tags = "__test".toList ++ '(' :: rest := rfl
    have hname : "__test".toList.all Grammar.isNameChar = true := by decide +kernel
    have hwords : words (Scenario.registration name tags) = "__test".toList :: words rest := by
      unfold words
      rw [hcut, List.splitOnP_append_cons_of_forall_mem (fun c hc => by
        rw [List.all_eq_true.mp hname c hc]
        rfl) _ rfl]
      rfl
    rw [hwords]
    cases words rest with
    | nil => rfl
    | cons y ws => rfl
  imports := by decide +kernel

end Naming

/-- a module that binds names of every kind, with a meta object that has none -/
def crowdText : Text := "import { b as c } from './b';\nfunction f() {}\nexport default { a: 1 } as T;\nexport const { x } = c, Y = {};\n"

theorem transform_binding_crowd : ∃ s e,
    let m := Module.read "a.stories.ts" crowdText
    let m' := Module.read "a.stories.ts" s.code
    transform "a.stories.ts" crowdText TagFilter.standard (fun _ => "T") = .ok (.story s) ∧
      (MetaExport.all m).head? = some e ∧ e.shape ≠ .unrecognized ∧
      m.Reads m' e (m.parts TagFilter.standard.render "T" e) ∧
      (MetaExport.all m').head? = some (.aliased s.metaBinding) ∧
      (m'.names Naming.plain).count s.metaBinding = 1 := by
  have hcheck : (match transform "a.stories.ts" crowdText TagFilter.standard (fun _ => "T") with
      | .ok (.story s) =>
        let m := Module.read "a.stories.ts" crowdText
        (MetaExport.all m).head?.any fun e => decide (e.shape ≠ .unrecognized ∧
          m.Reads (Module.read "a.stories.ts" s.code) e
            (m.parts TagFilter.standard.render "T" e) ∧
          (m.namesApart Naming.plain e).count s.metaBinding +
            (if e.shape = .inline then 1 else 0) + importedNames.count s.metaBinding = 1)
      | _ => false) = true := by decide +kernel
  cases h : transform "a.stories.ts" crowdText TagFilter.standard (fun _ => "T") with
  | error why =>
    rw [h] at hcheck
    cases hcheck
  | ok r =>
    cases r with
    | unchanged c =>
      rw [h] at hcheck
      cases hcheck
    | story s =>
      rw [h] at hcheck
      obtain ⟨e, he, hcheck⟩ := (Option.any_eq_true _ _).mp hcheck
      obtain ⟨hshape, hread, hcount⟩ := of_decide_eq_true hcheck
      obtain ⟨-, -, -, hnames, hall⟩ := transform_binding Naming.plain _ _ _ _ h he hshape
      obtain ⟨hdefault, heq⟩ := hall _ hread
      exact ⟨s, e, rfl, he, hshape, hread, hdefault, (congrArg _ heq).trans (hnames.trans hcount)⟩

/-- a text without errors whose test module, read again, binds the name of its meta object `k`
times -/
def BindsMeta (text : Text) (k : Nat) : Prop :=
  (Module.read "a.stories.ts" text).hasErrors = false ∧
    ∃ s, transform "a.stories.ts" text TagFilter.standard (fun _ => "T") = .ok (.story s) ∧
      ((Module.read "a.stories.ts" s.code).names Naming.plain).count s.metaBinding = k

theorem bindsMeta_of_check {text : Text} {k : Nat}
    (h : (!(Module.read "a.stories.ts" text).hasErrors &&
      match transform "a.stories.ts" text TagFilter.standard (fun _ => "T") with
      | .ok (.story s) =>
        ((Module.read "a.stories.ts" s.code).names Naming.plain).count s.metaBinding = k
      | _ => false) = true) : BindsMeta text k := by
  obtain ⟨herrors, hcount⟩ := Bool.and_eq_true_iff.mp h
  refine ⟨(Bool.not_eq_true' _).mp herrors, ?_⟩
  split at hcount
  · next s hs => exact ⟨s, hs, of_decide_eq_true hcount⟩
  · cases hcount

/-- **The name is not always that of one thing**: nothing is bound for a default export that is not
recognized, nothing is asked of a name that is exported, and a module may have bound the name that
is given to an object. -/
theorem binding_unreal : BindsMeta "export default createMeta();\n" 0 ∧
    BindsMeta "export default meta;\n" 0 ∧
      BindsMeta "const __STORYBOOK_META__ = {};\nexport default {};\n" 2 :=
  ⟨bindsMeta_of_check (by decide +kernel), bindsMeta_of_check (by decide +kernel),
    bindsMeta_of_check (by decide +kernel)⟩

end StorySuite
