import StorySuite.Proofs.Story.Again
import StorySuite.Proofs.Story.Header

/-!
# The parts of a test module

The code of a test module is put together of statements: those of the module that it is made of, as
they are written there, the registrations in front of them, and the imports behind them.  One of
them may have become a variable and its export.  `Module.parts` lists them, with what stands
between them.

* `Part`                   a piece of the code, and `Part.text` its text;
* `Module.spelled`         how a statement is written, with the title if its object is given one;
* `Module.partsFrom`       the pieces from some byte on, statement after statement;
* `text_partsFrom`         statements that stay as they are give their text with the lines in it;
* `Story.code_eq_parts`    **the code of a test module is the text of its parts**.
-/

namespace StorySuite

/-- a piece of the code of a test module -/
inductive Part where
  /-- what stands between two statements -/
  | gap (t : Text)
  /-- the statement `n` of the module, spelled `t` -/
  | kept (n : Node) (t : Text)
  /-- the statement that registers a story -/
  | registration (name tags : Text)
  /-- the variable of the meta object `v`, which is spelled `t` -/
  | named (v : Node) (t : Text)
  /-- the default export of that variable -/
  | exported
  /-- an import of what registrations need -/
  | needed (t : Text)

namespace Part

def text : Part → Text
  | gap t => t
  | kept _ t => t
  | registration name tags => Scenario.registration name tags
  | named _ t => Meta.opening ++ t ++ ";"
  | exported => "export default " ++ MetaExport.binding ++ ";"
  | needed t => t

/-- the imports at the end -/
def imports : List Part := Story.imports.flatMap fun t => [gap ['\n'], needed t]

theorem text_imports : imports.flatMap text = Story.importBlock := by decide +kernel

end Part

/-- whether a node at the top level is a statement -/
def Node.isStatement (n : Node) : Bool := n.kind.isNamed && n.kind != .comment

theorem Module.statements_eq (m : Module) : m.statements = m.tree.children.filter Node.isStatement := by
  unfold Module.statements Node.named
  rw [List.filter_filter]
  refine List.filter_congr fun n _ => ?_
  rw [Bool.and_comm]
  rfl

namespace Module

section
variable (m : Module) (tags title : Text)

/-- how a node at the top level is written: as before, with the title behind the brace of the
object that is given one -/
def spelled (e : MetaExport) (n : Node) : Text :=
  match e.untitled? m with
  | some o =>
    if n.start ≤ o.start ∧ o.start < n.stop then
      m.text.slice n.start (o.start + 1) ++ Meta.titleProperty title ++
        m.text.slice (o.start + 1) n.stop
    else m.textOf n
  | none => m.textOf n

/-- what a node at the top level becomes -/
def partsOf (e : MetaExport) (n : Node) : List Part :=
  match e with
  | .inline s v o =>
    if n.span = s.span then [.named v (Meta.titledValue m title v o), .gap ['\n'], .exported]
    else plainly n
  | _ => plainly n
where
  /-- it stays what it is -/
  plainly (n : Node) : List Part :=
    if n.isStatement = true then [.kept n (m.spelled title e n)] else [.gap (m.spelled title e n)]

/-- the registrations in front of byte `n`, each on its line -/
def registrations (n : Nat) : List Part :=
  (m.scenarios.filter fun c => c.start = n).flatMap fun c => [.registration c.name tags, .gap ['\n']]

/-- the parts for what begins at byte `n`, behind the registrations there -/
def placed (n : Nat) (ps : List Part) : List Part :=
  (if ps.flatMap Part.text = [] then [] else m.registrations tags n) ++ ps

/-- the parts for the text from byte `a` up to byte `b`, where the nodes `ns` stand -/
def partsFrom (f : Node → List Part) (b : Nat) : Nat → List Node → List Part
  | a, [] => m.placed tags a [.gap (m.text.slice a b)]
  | a, n :: ns => m.placed tags a [.gap (m.text.slice a n.start)] ++ m.placed tags n.start (f n) ++
      partsFrom f b n.stop ns

/-- **What the code of a test module is put together of**, where `e` is the default export of the
module. -/
def parts (e : MetaExport) : List Part :=
  m.partsFrom tags (m.partsOf title e) m.text.size 0 m.tree.children ++
    m.registrations tags m.text.size ++ Part.imports

end

/-! ## the text of some parts -/

variable {m : Module} {tags title : Text} {f : Node → List Part} {a b : Nat} {ns : List Node}

theorem text_registrations (m : Module) (tags : Text) (n : Nat) :
    (m.registrations tags n).flatMap Part.text = m.linesAt tags n := by
  unfold registrations linesAt Scenario.linesAt
  rw [List.flatMap_assoc]
  refine List.flatMap_congr fun c _ => ?_
  show Scenario.registration c.name tags ++ (['\n'] ++ []) = _
  rfl

/-- what stands in a text, behind the lines in front of it -/
def linedUp (m : Module) (tags : Text) (n : Nat) (t : Text) : Text :=
  if t = [] then [] else m.linesAt tags n ++ t

theorem text_placed (m : Module) (tags : Text) (n : Nat) (ps : List Part) :
    (m.placed tags n ps).flatMap Part.text = m.linedUp tags n (ps.flatMap Part.text) := by
  unfold placed linedUp
  rw [List.flatMap_append]
  split
  · next h => rw [h]; rfl
  · rw [text_registrations]

end Module

theorem Text.weave_append (f : Nat → Text) (n : Nat) (s t : Text) :
    (s ++ t).weave f n = s.weave f n ++ t.weave f (n + s.size) := by
  induction s generalizing n with
  | nil => rfl
  | cons c s ih =>
    rw [List.cons_append, weave, weave, ih, Text.size_cons, List.append_assoc, Nat.add_assoc]
    rfl

namespace Module

variable {m : Module} {tags title : Text} {f : Node → List Part} {a b : Nat} {ns : List Node}

/-- a text with lines in front of its first byte alone -/
theorem weave_eq_linedUp {n : Nat} {t : Text}
    (h : ∀ k, n < k → k < n + t.size → m.linesAt tags k = []) :
    t.weave (m.linesAt tags) n = m.linedUp tags n t := by
  cases t with
  | nil => rfl
  | cons c t =>
    have hc : 0 < c.utf8Size := Char.utf8Size_pos c
    rw [Text.size_cons] at h
    unfold linedUp
    rw [if_neg (List.cons_ne_nil c t), Text.weave, Text.weave_eq_self fun k hk hk' => ?_]
    exact h k (by omega) (by omega)

theorem weave_slice (ha : m.text.isBoundary a = true) (hb : m.text.isBoundary b = true)
    (hab : a ≤ b) (h : ∀ k, a < k → k < b → m.linesAt tags k = []) :
    (m.text.slice a b).weave (m.linesAt tags) a = m.linedUp tags a (m.text.slice a b) := by
  refine weave_eq_linedUp fun k hk hk' => h k hk ?_
  rw [Text.size_slice ha hb hab] at hk'
  omega

variable (hm : m.Regular)
include hm

/-- **Statements that stay as they are** give the text that they stand in, with the lines of its
stories.  No line belongs to a place where none of them begins, the first byte apart. -/
theorem text_partsFrom (hns : ∀ n ∈ ns, m.Has n) (hb : m.text.isBoundary b = true)
    (hf : ∀ n ∈ ns, (f n).flatMap Part.text = m.textOf n) (ha : m.text.isBoundary a = true)
    (hrow : Node.Row a b ns)
    (hlines : ∀ k, a < k → k < b → m.linesAt tags k ≠ [] → ∃ n ∈ ns, n.start = k) :
    (m.partsFrom tags f b a ns).flatMap Part.text =
      (m.text.slice a b).weave (m.linesAt tags) a := by
  induction ns generalizing a with
  | nil =>
    have hquiet : ∀ k, a < k → k < b → m.linesAt tags k = [] := by
      intro k hk hk'
      by_contra hne
      obtain ⟨n, hn, -⟩ := hlines k hk hk' hne
      cases hn
    rw [partsFrom, text_placed, weave_slice ha hb hrow hquiet]
    show m.linedUp tags a (m.text.slice a b ++ []) = _
    rw [List.append_nil]
  | cons n ns ih =>
    obtain ⟨h1, h2, h3⟩ := hrow
    have hn := hns n List.mem_cons_self
    have hstart := hm.boundary_start hn
    have hstop := hm.boundary_stop hn
    -- the gap and `n` have lines in front of them only
    have hstarts : ∀ k, a < k → k < n.stop → k ≠ n.start → m.linesAt tags k = [] := by
      intro k hk hk' hne
      by_contra hline
      obtain ⟨x, hx, hxk⟩ := hlines k hk (Nat.lt_of_lt_of_le hk' h3.le) hline
      rcases List.mem_cons.mp hx with rfl | hx
      · exact hne hxk.symm
      · have := (h3.mem hx).1
        omega
    have hih := ih (fun x hx => hns x (List.mem_cons_of_mem _ hx))
      (fun x hx => hf x (List.mem_cons_of_mem _ hx)) hstop h3 fun k hk hk' hline => by
        obtain ⟨x, hx, hxk⟩ := hlines k (by omega) hk' hline
        rcases List.mem_cons.mp hx with rfl | hx
        · omega
        · exact ⟨x, hx, hxk⟩
    have hgap := weave_slice ha hstart h1 fun k hk hk' =>
      hstarts k hk (Nat.lt_of_lt_of_le hk' h2) (Nat.ne_of_lt hk')
    have hword := weave_slice hstart hstop h2 fun k hk hk' =>
      hstarts k (Nat.lt_of_le_of_lt h1 hk) hk' (Nat.ne_of_gt hk)
    have hcut : m.text.slice a b =
        m.text.slice a n.start ++ (m.text.slice n.start n.stop ++ m.text.slice n.stop b) := by
      rw [Text.slice_trans hstart hstop hb h2 h3.le,
        Text.slice_trans ha hstart hb h1 (Nat.le_trans h2 h3.le)]
    have hsize : a + (m.text.slice a n.start).size = n.start := by
      rw [Text.size_slice ha hstart h1]
      omega
    have hsize' : n.start + (m.text.slice n.start n.stop).size = n.stop := by
      rw [Text.size_slice hstart hstop h2]
      omega
    rw [partsFrom, List.flatMap_append, List.flatMap_append, text_placed, text_placed, hih,
      hf n List.mem_cons_self, hcut, Text.weave_append, Text.weave_append, hsize, hsize', hgap,
      hword, List.append_assoc]
    show m.linedUp tags a (m.text.slice a n.start ++ []) ++ _ = _
    rw [List.append_nil]
    rfl

omit hm in
theorem partsFrom_append (m : Module) (tags : Text) (f : Node → List Part) (a b : Nat)
    (xs : List Node) (n : Node) (ys : List Node) :
    m.partsFrom tags f b a (xs ++ n :: ys) =
      m.partsFrom tags f n.start a xs ++ m.placed tags n.start (f n) ++
        m.partsFrom tags f b n.stop ys := by
  induction xs generalizing a with
  | nil => rfl
  | cons x xs ih =>
    rw [List.cons_append, partsFrom, ih, partsFrom]
    simp only [List.append_assoc]

omit hm in
theorem exists_start {k : Nat} (h : m.linesAt tags k ≠ []) : ∃ n ∈ m.tree.children, n.start = k := by
  have hne : (m.scenarios.filter fun c => c.start = k) ≠ [] := fun h' => h (by
    rw [linesAt, Scenario.linesAt, h']
    rfl)
  obtain ⟨c, hc⟩ := List.exists_mem_of_ne_nil _ hne
  obtain ⟨hmem, hstart⟩ := List.mem_filter.mp hc
  obtain ⟨n, hn, h'⟩ := Module.start_of_scenarios hmem
  exact ⟨n, Module.topLevel_subset m n hn, h'.trans (of_decide_eq_true hstart)⟩

theorem row_children : Node.Row 0 m.text.size m.tree.children :=
  (hm.row_of_has (has_root m)).mono (Nat.zero_le _) (Text.le_size (hm.boundary_stop (has_root m)))

theorem text_partsFrom_all (hf : ∀ n ∈ m.tree.children, (f n).flatMap Part.text = m.textOf n) :
    (m.partsFrom tags f m.text.size 0 m.tree.children).flatMap Part.text =
      m.text.weave (m.linesAt tags) 0 := by
  rw [text_partsFrom hm (fun n hn => (has_root m).child hn) (Text.isBoundary_size _) hf
    (Text.isBoundary_zero _) (row_children hm) fun k _ _ h => exists_start h,
    Text.slice_zero, Text.take_size]

/-- **The parts where one statement does not stay as it is.** -/
theorem text_partsFrom_around {xs ys : List Node} {s : Node}
    (hsplit : m.tree.children = xs ++ s :: ys)
    (hf : ∀ n ∈ xs ++ ys, (f n).flatMap Part.text = m.textOf n)
    (hs : (f s).flatMap Part.text ≠ []) :
    (m.partsFrom tags f m.text.size 0 m.tree.children).flatMap Part.text =
      (m.text.take s.start).weave (m.linesAt tags) 0 ++
        (m.linesAt tags s.start ++ (f s).flatMap Part.text) ++
          (m.text.drop s.stop).weave (m.linesAt tags) s.stop := by
  have hhas : ∀ n ∈ xs ++ s :: ys, m.Has n := fun n hn => (has_root m).child (hsplit ▸ hn)
  have hbs := hm.boundary_start (hhas s (by simp))
  have hbt := hm.boundary_stop (hhas s (by simp))
  have hrow := row_children hm
  rw [hsplit] at hrow
  obtain ⟨h1, h2, h3⟩ := hrow.split
  have hmem : ∀ {k}, m.linesAt tags k ≠ [] → ∃ n, (n ∈ xs ∨ n = s ∨ n ∈ ys) ∧ n.start = k := by
    intro k hk
    obtain ⟨n, hn, hstart⟩ := exists_start hk
    rw [hsplit] at hn
    exact ⟨n, by simpa using hn, hstart⟩
  rw [hsplit, partsFrom_append, List.flatMap_append, List.flatMap_append, text_placed,
    text_partsFrom hm (fun n hn => hhas n (by simp [hn])) hbs (fun n hn => hf n (by simp [hn]))
      (Text.isBoundary_zero _) h1 fun k _ hk h => ?_,
    text_partsFrom hm (fun n hn => hhas n (by simp [hn])) (Text.isBoundary_size _)
      (fun n hn => hf n (by simp [hn])) hbt h3 fun k hk _ h => ?_,
    Text.slice_zero, Patch.slice_size hbt, linedUp, if_neg hs]
  · obtain ⟨n, hn | rfl | hn, rfl⟩ := hmem h
    · have := h1.mem hn
      omega
    · omega
    · exact ⟨n, hn, rfl⟩
  · obtain ⟨n, hn | rfl | hn, rfl⟩ := hmem h
    · exact ⟨n, hn, rfl⟩
    · omega
    · have := h3.mem hn
      omega

end Module

/-! ## where the title goes -/

theorem Module.Regular.declaratorsIn_within {m : Module} (hm : m.Regular) {n v : Node}
    (hn : m.Has n) (hv : v ∈ n.declaratorsIn) : n.start ≤ v.start ∧ v.stop ≤ n.stop := by
  obtain ⟨d, hd, h⟩ := List.mem_flatMap.mp hv
  obtain ⟨h1, h2⟩ := hm.within hn hd
  rcases List.mem_append.mp h with h | h
  · split at h
    · rw [List.mem_singleton.mp h]
      exact ⟨h1, h2⟩
    · cases h
  · split at h
    · obtain ⟨h3, h4⟩ := hm.within (hn.child hd) (List.mem_of_mem_filter h)
      exact ⟨Nat.le_trans h1 h3, Nat.le_trans h4 h2⟩
    · cases h

namespace Module

variable {m : Module} (hm : m.Regular)
include hm

theorem exists_around {name : Text} {o : Node} (h : m.objectOf? name = some o) :
    ∃ n ∈ m.tree.children, n.declaratorsIn.isEmpty = false ∧ m.Has o ∧ o.kind = .object ∧
      n.start ≤ o.start ∧ o.stop ≤ n.stop := by
  obtain ⟨b, hb, h1⟩ := Option.bind_eq_some_iff.mp h
  obtain ⟨v, hv, ho⟩ := Option.bind_eq_some_iff.mp h1
  obtain ⟨n, hn, -, hd⟩ := Bindings.mem_topLevel_of_declared? hb
  have hn' := Module.topLevel_subset m n hn
  have hhas := (has_root m).child hn'
  have hd' := Module.has_of_declaratorsIn hhas hd
  have hv' := (Node.mem_of_child? hv).1
  obtain ⟨h2, h3⟩ := hm.declaratorsIn_within hhas hd
  obtain ⟨h4, h5⟩ := hm.within hd' hv'
  obtain ⟨h6, h7, h8, h9⟩ := hm.object (hd'.child hv') ho
  refine ⟨n, hn', ?_, h6, h7, by omega, by omega⟩
  cases hds : n.declaratorsIn with
  | nil =>
    rw [hds] at hd
    cases hd
  | cons => rfl

/-- the statement with the object that is given a title -/
theorem exists_untitled {e : MetaExport} (he : (MetaExport.all m).head? = some e) {o : Node}
    (h : e.untitled? m = some o) :
    ∃ n ∈ m.tree.children, (n.declaratorsIn.isEmpty = false ∨ e.statement? = some n.span) ∧
      m.Has o ∧ o.kind = .object ∧ n.start ≤ o.start ∧ o.stop ≤ n.stop := by
  cases e with
  | aliased name =>
    have ho : m.objectOf? name = some o := (Option.filter_eq_some_iff.mp h).1
    obtain ⟨n, hn, hd, h'⟩ := exists_around hm ho
    exact ⟨n, hn, Or.inl hd, h'⟩
  | inline s v o' =>
    have hin := MetaExport.inline_of_mem_all (List.mem_of_mem_head? he)
    have heq : o' = o := by
      have h' : (if o'.hasTitle m = true then none else some o') = some o := h
      split at h'
      · cases h'
      · exact Option.some.inj h'
    subst heq
    have hs := (has_root m).child hin.statement
    obtain ⟨h1, h2, h3, h4⟩ := hm.object (hs.child hin.value) hin.object
    obtain ⟨h5, h6⟩ := hm.within hs hin.value
    exact ⟨s, hin.statement, Or.inr rfl, h1, h2, by omega, by omega⟩
  | unrecognized => cases h

/-- **Only the statement with that object is written otherwise.** -/
theorem spelled_eq_textOf {e : MetaExport} (he : (MetaExport.all m).head? = some e) (title : Text)
    {n : Node} (hn : n ∈ m.tree.children) (hempty : n.declaratorsIn.isEmpty = true)
    (hspan : e.statement? ≠ some n.span) : m.spelled title e n = m.textOf n := by
  unfold spelled
  split
  · next o ho =>
    obtain ⟨s, hs, hside, hhas, hk, h1, h2⟩ := exists_untitled hm he ho
    obtain ⟨h3, -⟩ := hm.brace_boundary hhas hk
    refine if_neg fun h => ?_
    rcases (row_children hm).apart hn hs with rfl | h' | h'
    · rcases hside with h'' | h''
      · rw [hempty] at h''
        cases h''
      · exact hspan h''
    · omega
    · omega
  · rfl

omit hm in
theorem text_plainly (m : Module) (title : Text) (e : MetaExport) (n : Node) :
    (partsOf.plainly m title e n).flatMap Part.text = m.spelled title e n := by
  unfold partsOf.plainly
  split
  · exact List.append_nil _
  · exact List.append_nil _

omit hm in
theorem partsOf_of_ne {e : MetaExport} {n : Node} (h : e.statement? ≠ some n.span) (title : Text) :
    m.partsOf title e n = partsOf.plainly m title e n := by
  cases e with
  | inline s v o => exact if_neg fun h' => h (congrArg some h'.symm)
  | aliased name => rfl
  | unrecognized => rfl

/-! ## the code -/

theorem code_untitled {e : MetaExport} (htitle : e.untitled? m = none)
    (hstatement : e.statement? = none) (tags title : Text) :
    m.testCode tags title e = (m.parts tags title e).flatMap Part.text := by
  have hf : ∀ n ∈ m.tree.children, (m.partsOf title e n).flatMap Part.text = m.textOf n := by
    intro n _
    rw [partsOf_of_ne (by rw [hstatement]; nofun), text_plainly, spelled, htitle]
  rw [Story.testCode_titled]
  · rw [parts, List.flatMap_append, List.flatMap_append, text_partsFrom_all hm hf,
      text_registrations, Part.text_imports]
  · rintro s v o rfl
    cases hstatement
  · rintro name o rfl ho
    have hfilter : (m.objectOf? name).filter (fun o => !o.hasTitle m) = none := htitle
    rw [ho] at hfilter
    cases h : o.hasTitle m with
    | true => rfl
    | false =>
      rw [Option.filter, h] at hfilter
      cases hfilter

omit hm in
theorem ending_cons_insert {p : Nat} (hp : m.text.isBoundary p = true) (tags t : Text) :
    Patch.ending (.insert p t :: m.laterEdits tags) 0 m.text =
      (m.text.take p).weave (m.linesAt tags) 0 ++ t ++
        ((m.text.drop p).weave (m.linesAt tags) p ++
          (m.linesAt tags m.text.size ++ Story.importBlock)) := by
  have hsize := Text.size_take hp
  have hle := Text.le_size hp
  have hhead : Patch.passage (.insert p t :: m.laterEdits tags) 0 (m.text.take p) =
      (m.text.take p).weave (m.linesAt tags) 0 := by
    refine Patch.passage_eq_weave fun k _ hk => ⟨?_, ?_⟩
    · rw [Patch.before_cons_of_ne (Nat.ne_of_gt (show k < p by omega)),
        before_laterEdits_of_lt m tags (by omega)]
    · exact (Bool.true_and _).trans (keeps_laterEdits m tags k)
  rw [Patch.ending_cut _ hp, hhead, Patch.ending_insert,
    ending_laterEdits m tags (Text.size_drop hp), List.append_assoc]

theorem linesAt_inside {n : Node} (hn : n ∈ m.tree.children) {k : Nat} (h1 : n.start < k)
    (h2 : k < n.stop) : m.linesAt tags k = [] := by
  by_contra hne
  obtain ⟨x, hx, hstart⟩ := exists_start hne
  have := hm.start_le_stop ((has_root m).child hx)
  rcases (row_children hm).apart hx hn with rfl | h | h <;> omega

theorem weave_take_within {n : Node} (hn : n ∈ m.tree.children) {p : Nat}
    (hp : m.text.isBoundary p = true) (h1 : n.start ≤ p) (h2 : p ≤ n.stop)
    (hne : m.text.slice n.start p ≠ []) :
    (m.text.take p).weave (m.linesAt tags) 0 =
      (m.text.take n.start).weave (m.linesAt tags) 0 ++
        (m.linesAt tags n.start ++ m.text.slice n.start p) := by
  have hbs := hm.boundary_start ((has_root m).child hn)
  have hcut : m.text.take p = m.text.take n.start ++ m.text.slice n.start p := by
    rw [← Text.slice_zero, ← Text.slice_zero, Text.slice_trans (Text.isBoundary_zero _) hbs hp
      (Nat.zero_le _) h1]
  have hquiet : ∀ k, n.start < k → k < p → m.linesAt tags k = [] :=
    fun k hk hk' => linesAt_inside hm hn hk (Nat.lt_of_lt_of_le hk' h2)
  rw [hcut, Text.weave_append, Text.size_take hbs, Nat.zero_add, weave_slice hbs hp h1 hquiet,
    linedUp, if_neg hne]

theorem weave_drop_within {n : Node} (hn : n ∈ m.tree.children) {p : Nat}
    (hp : m.text.isBoundary p = true) (h1 : n.start < p) (h2 : p ≤ n.stop) :
    (m.text.drop p).weave (m.linesAt tags) p =
      m.text.slice p n.stop ++ (m.text.drop n.stop).weave (m.linesAt tags) n.stop := by
  have hbt := hm.boundary_stop ((has_root m).child hn)
  have hsize := Text.size_slice hp hbt h2
  have hquiet : (m.text.slice p n.stop).weave (m.linesAt tags) p = m.text.slice p n.stop :=
    Text.weave_eq_self fun k hk hk' => linesAt_inside hm hn (by omega) (by omega)
  rw [← Text.slice_append_drop hp hbt h2, Text.weave_append, hquiet, hsize,
    Nat.add_sub_cancel' h2]

theorem code_titled {name : Text} (he : (MetaExport.all m).head? = some (.aliased name)) {o : Node}
    (ho : (MetaExport.aliased name).untitled? m = some o) (tags title : Text) :
    m.testCode tags title (.aliased name) =
      (m.parts tags title (.aliased name)).flatMap Part.text := by
  obtain ⟨n, hn, -, hhas, hk, h1, h2⟩ := exists_untitled hm he ho
  obtain ⟨h3, hp⟩ := hm.brace_boundary hhas hk
  have hroot := (has_root m).child hn
  have hbs := hm.boundary_start hroot
  have hbt := hm.boundary_stop hroot
  have hedits : m.edits tags title (.aliased name) =
      .insert (o.start + 1) (Meta.titleProperty title) :: m.laterEdits tags := by
    obtain ⟨hobj, hnot⟩ := Option.filter_eq_some_iff.mp ho
    rw [edits, Meta.edits_aliased, hm.objectOf?_eq, hobj]
    show Meta.titleEdits m title o ++ _ = _
    rw [Meta.titleEdits, if_neg fun h => by rw [h] at hnot; cases hnot]
    rfl
  have hnone : ∀ x : Span, (MetaExport.aliased name).statement? ≠ some x := by
    intro x h
    cases h
  have hspelled : (m.partsOf title (.aliased name) n).flatMap Part.text =
      m.text.slice n.start (o.start + 1) ++ Meta.titleProperty title ++
        m.text.slice (o.start + 1) n.stop := by
    rw [partsOf_of_ne (hnone _), text_plainly, spelled, ho]
    exact if_pos ⟨h1, by omega⟩
  obtain ⟨xs, ys, hsplit⟩ := List.append_of_mem hn
  have hrow := row_children hm
  rw [hsplit] at hrow
  have hothers : ∀ x ∈ xs ++ ys, (m.partsOf title (.aliased name) x).flatMap Part.text =
      m.textOf x := by
    intro x hx
    have hside := hrow.sides x hx
    rw [partsOf_of_ne (hnone _), text_plainly, spelled, ho]
    exact if_neg fun h => by omega
  have hne : m.text.slice n.start (o.start + 1) ≠ [] := by
    intro h
    have h' := Text.size_slice hbs hp (by omega : n.start ≤ o.start + 1)
    rw [h, Text.size_nil] at h'
    omega
  have hne' : (m.partsOf title (.aliased name) n).flatMap Part.text ≠ [] := by
    rw [hspelled]
    exact fun h => hne (List.append_eq_nil_iff.mp (List.append_eq_nil_iff.mp h).1).1
  rw [← hm.ending_edits he, hedits, ending_cons_insert hp,
    weave_take_within hm hn hp (by omega) (by omega) hne, weave_drop_within hm hn hp (by omega) (by omega),
    parts,
    List.flatMap_append, List.flatMap_append,
    text_partsFrom_around hm hsplit hothers hne', hspelled,
    text_registrations, Part.text_imports]
  simp only [List.append_assoc]

theorem code_named {s v o : Node} (he : (MetaExport.all m).head? = some (.inline s v o))
    (tags title : Text) :
    m.testCode tags title (.inline s v o) =
      (m.parts tags title (.inline s v o)).flatMap Part.text := by
  have hin := MetaExport.inline_of_mem_all (List.mem_of_mem_head? he)
  have hlt := hin.start_lt_value hm
  obtain ⟨-, -, -, h1, h2, h3, h4, -⟩ := hin.bounds hm
  obtain ⟨xs, ys, hsplit⟩ := List.append_of_mem hin.statement
  have hrow := row_children hm
  rw [hsplit] at hrow
  have hothers : ∀ x ∈ xs ++ ys, (m.partsOf title (.inline s v o) x).flatMap Part.text =
      m.textOf x := by
    intro x hx
    have hside := hrow.sides x hx
    have hne : (MetaExport.inline s v o).statement? ≠ some x.span := by
      intro h
      have h' : s.span = x.span := Option.some.inj h
      have hstart : s.start = x.start := congrArg Span.start h'
      have hstop : s.stop = x.stop := congrArg Span.stop h'
      omega
    rw [partsOf_of_ne hne, text_plainly, spelled]
    split
    · next o' ho =>
      have heq : o = o' := by
        have h' : (if o.hasTitle m = true then none else some o) = some o' := ho
        split at h'
        · cases h'
        · exact Option.some.inj h'
      subst heq
      exact if_neg fun h => by omega
    · rfl
  have hnamed : (m.partsOf title (.inline s v o) s).flatMap Part.text =
      "const __STORYBOOK_META__ = " ++ Meta.titledValue m title v o ++
        ";\nexport default __STORYBOOK_META__;" := by
    show (if s.span = s.span then _ else _ : List Part).flatMap Part.text = _
    rw [if_pos rfl]
    rw [List.flatMap_cons, List.flatMap_cons, List.flatMap_singleton]
    show Meta.opening ++ Meta.titledValue m title v o ++ [';'] ++ _ = _
    rw [List.append_assoc]
    rfl
  rw [testCode, parts, List.flatMap_append, List.flatMap_append,
    text_partsFrom_around hm hsplit hothers (by rw [hnamed]; exact List.cons_ne_nil _ _), hnamed,
    text_registrations, Part.text_imports]
  simp only [List.append_assoc]

end Module

/-- **The code of a test module is the text of its parts.** -/
theorem Story.code_eq_parts {m : Module} (hm : m.Regular) {tags : TagFilter} {title : Text}
    {s : Story} (h : ofModule m tags title = .ok s) {e : MetaExport}
    (he : (MetaExport.all m).head? = some e) :
    s.code = (m.parts tags.render title e).flatMap Part.text := by
  obtain ⟨e', he', hcode⟩ := code_eq_testCode hm h
  obtain rfl : e' = e := Option.some.inj (he'.symm.trans he)
  rw [hcode]
  cases e' with
  | inline s v o => exact Module.code_named hm he tags.render title
  | unrecognized => exact Module.code_untitled hm rfl rfl tags.render title
  | aliased name =>
    cases ho : (MetaExport.aliased name).untitled? m with
    | none => exact Module.code_untitled hm ho rfl tags.render title
    | some o => exact Module.code_titled hm he ho tags.render title

end StorySuite
