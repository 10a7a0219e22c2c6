import StorySuite.Proofs.Grammar.Expression
import StorySuite.Grammar.Statement

/-!
# What the rules for statements read

* `Rules.Sound.declaration`      declarations;
* `Exported`                     the forms of what follows the word `export`;
* `ExportParts.form`             what tells them apart;
* `Gives.exportStatement`        **an export is one node with its keyword in front**;
* `Rules.Sound.wholeStatement`   **statements**, each one node.
-/

namespace StorySuite.Grammar

open Grammar.Parser

variable {t : Text} {g : Rules}

/-- variables are declared by nodes of an ordinary kind -/
def Declaration.IsOrdinary : Declaration → Prop
  | .variable k => k.isOrdinary = true
  | _ => True

theorem isOrdinary_declarationAt? (r : Reader) :
    ∀ d, declarationAt? r = some d → d.IsOrdinary := by
  have hnone : ∀ d : Declaration, none = some d → d.IsOrdinary := nofun
  have hsome : ∀ {e : Declaration}, e.IsOrdinary → ∀ d, some e = some d → d.IsOrdinary :=
    fun he d h => Option.some.inj h ▸ he
  unfold declarationAt?
  repeat'
    refine iteInduction (motive := fun o => ∀ d : Declaration, o = some d → d.IsOrdinary)
      (fun _ => ?_) (fun _ => ?_)
  all_goals first
    | exact hnone
    | exact hsome trivial
    | exact hsome rfl

namespace Rules.Sound

variable (hg : g.Sound t)
include hg

/-! ## declarations -/

theorem declarator {k : Kind} (hk : k.isOrdinary = true) : Gives t (g.declarator k) := by
  refine Lists.node_plain (hg.target.bind_role .name fun n => ?_) hk
  refine (quiet_markNot _ _).optional.bind fun _ => ?_
  refine ((hg.annotation _).when _).plain.bind fun ty => ?_
  have hv : Lists t Plain [] (do
      let _ ← mark "="
      Parser.one (Node.withRole .value <$> g.expression .value)) :=
    (quiet_mark _).bind fun _ => .map (.map ((hg.expression _).inRole .value))
  exact (hv.when _).bind fun v => .pure (by simp)

theorem declarators : Lists t Part [] g.declarators := (hg.declarator rfl).one.sepBy (quiet_mark _)

theorem disposed : Gives t g.disposed := by
  refine Lists.node ((quiet_word _).optional.bind fun _ => (quiet_word _).bind fun _ => ?_) rfl
  refine ((hg.declarator rfl).one.sepBy (quiet_mark _)).bind fun ns => ?_
  exact (quiet_semicolon _).bind fun _ => .pure rfl

theorem variableList {k : Kind} (hk : k.isOrdinary = true) : Gives t (g.variableList k) := by
  refine Lists.node (quiet_name.bind fun _ => hg.declarators.bind fun ns => ?_) hk
  exact (quiet_semicolon _).bind fun _ => .pure rfl

theorem functionDeclaration : Gives t g.functionDeclaration := by
  refine Lists.node ((quiet_word _).optional.bind fun _ => (quiet_word _).bind fun _ => ?_) rfl
  refine (quiet_mark _).optional.bind fun _ => ((spans_token _).leaf rfl).bind fun n => ?_
  refine hg.signature.bind fun s => .look fun _ => .ite ?_ ?_
  · exact hg.block.bind fun b => (quiet_maybeEnded _).bind fun _ => .pure rfl
  · exact (quiet_semicolon _).bind fun _ => .pure rfl

theorem classDeclaration : Gives t g.classDeclaration := by
  refine Lists.node ((hg.decorator.many _).bind fun ds => ?_) rfl
  refine (quiet_word _).optional.bind fun _ => (quiet_word _).bind fun _ => .look fun _ => ?_
  refine (quiet_guard _).bind fun _ => hg.classTail.bind fun c => ?_
  exact .ite ((quiet_maybeEnded _).bind fun _ => .pure rfl) (.pure rfl)

theorem interface : Gives t g.interface := by
  refine Lists.node ((quiet_word _).bind fun _ => ((spans_token _).leaf rfl).bind fun n => ?_) rfl
  refine (hg.typeParameters.when _).bind fun ts => Lists.bind (Lists.when ?_ _) fun es => ?_
  · exact quiet_name.bind fun _ => (hg.type _).one.sepBy (quiet_mark _)
  · exact (hg.members.node rfl).bind fun b => .pure (by simp)

theorem enumMember : Lists t Part [] g.enumMember := by
  refine hg.propertyKey.bind fun k => Lists.bind (Lists.when ?_ _) fun v => .pure rfl
  exact (quiet_mark _).bind fun _ => (hg.expression _).one

theorem enumeration : Gives t g.enumeration := by
  refine Lists.node ((quiet_word _).optional.bind fun _ => (quiet_word _).bind fun _ => ?_) rfl
  refine ((spans_token _).leaf rfl).bind fun n => ?_
  refine Gives.bind (Lists.node ((quiet_mark _).bind fun _ => ?_) rfl) fun b => .pure rfl
  exact hg.enumMember.sepUntil (quiet_mark _) _

theorem typeAlias : Gives t g.typeAlias := by
  refine Lists.node ((quiet_word _).bind fun _ => ((spans_token _).leaf rfl).bind fun n => ?_) rfl
  refine (hg.typeParameters.when _).bind fun ts => (quiet_mark _).bind fun _ => ?_
  exact (hg.type _).bind fun n => (quiet_semicolon _).bind fun _ => .pure (by simp)

theorem moduleOf : Gives t g.moduleOf := by
  refine Lists.node (Quiet.bind ((quiet_word _).orElse (quiet_word _)) fun _ => ?_) rfl
  refine .look fun _ => .ite ?_ ?_
  · exact (quiet_token _).bind fun _ => hg.block.one.when _
  · have hnames : Lists t Part [] (sepBy (skip name) (mark ".")) :=
      quiet_name.skip.sepBy (quiet_mark _)
    exact hnames.quiet.bind fun _ => hg.block.one.when _

theorem importAlias : Gives t g.importAlias := by
  refine Lists.node ((quiet_word _).bind fun _ => quiet_name.bind fun _ => ?_) rfl
  refine (quiet_mark _).bind fun _ => (hg.operand _).bind fun n => ?_
  exact (quiet_semicolon _).bind fun _ => .pure rfl

theorem plainDeclaration {d : Declaration} (hd : d.IsOrdinary) : Gives t (g.plainDeclaration d) := by
  cases d with
  | «variable» k => exact hg.variableList hd
  | function => exact hg.functionDeclaration
  | asyncFunction => exact hg.functionDeclaration
  | ordinaryClass => exact hg.classDeclaration
  | abstractClass => exact hg.classDeclaration
  | interface => exact hg.interface
  | enum => exact hg.enumeration
  | constEnum => exact hg.enumeration
  | typeAlias => exact hg.typeAlias
  | «namespace» => exact hg.moduleOf
  | module => exact hg.moduleOf
  | «import» => exact hg.importAlias
  | ambient => exact .fail

theorem ambient : Gives t g.ambient := by
  refine Lists.node ((quiet_word _).bind fun _ => .look fun _ => .ite ?_ ?_) rfl
  · exact quiet_name.bind fun _ => hg.block.one
  · refine .look_at fun r => ?_
    split
    · next d hd => exact (hg.plainDeclaration (isOrdinary_declarationAt? r d hd)).one
    · exact .fail

/-- **A declaration is one node.** -/
theorem declaration : Gives t g.declaration := by
  refine .look_at fun r => ?_
  split
  · exact hg.ambient
  · next d _ hd => exact hg.plainDeclaration (isOrdinary_declarationAt? r d hd)
  · exact .fail

/-! ## imports and names -/

theorem source : Lists t Plain [] g.source := by
  refine Gives.bind_role ((spans_token _).leaf rfl) .source fun s => ?_
  refine (Lists.when ?_ _).plain.bind fun attributes => .pure rfl
  exact quiet_name.bind fun _ => hg.objectOf.one

omit hg in
theorem clauseName (c : Role) : Yields t Plain (fun n ns => [n] = ns) [] (clauseName c) := by
  refine .look fun _ => .ite ?_ ?_
  · exact .map (((spans_token _).leaf rfl).inRole c)
  · exact .map (((spans_token _).leaf rfl).inRole c)

omit hg in
theorem clauseName_one (c : Role) : Lists t Plain [] (one (Rules.clauseName c)) :=
  .map (clauseName c)

omit hg in
theorem missing : Lists t Part [] missing := by
  intro r hr
  have hread : Reads t r { r with last := r.offset } [] :=
    .of_settles (.refl hr) hr.ended (Nat.le_refl _) rfl
  have hreg : (misfit r.offset r.offset).Regular t :=
    .intro ⟨Node.suits_of_isOrdinary rfl _ _ _, Nat.le_refl _, hr.offset_boundary,
      hr.offset_boundary⟩ fun _ hc => absurd hc List.not_mem_nil
  refine ⟨[misfit r.offset r.offset], hread.snoc hreg (Nat.le_refl _) nofun (Nat.le_refl _), ?_,
    rfl⟩
  intro n hn
  rw [List.mem_singleton.mp hn]
  exact part_of_isOrdinary rfl _ _

omit hg in
theorem specifier : Lists t Plain [] specifier := by
  have hk : Lists t Plain [] typeMark := by
    refine .look fun typed => ?_
    cases typed with
    | true => exact .map ((spans_token _).mark.mono (fun _ h => h) fun _ _ h => h.1)
    | false => exact (Gives.one ((spans_token _).leaf rfl)).plain
  refine (Gives.one (Lists.node_plain (.look fun marked => ?_) rfl)).plain
  refine (hk.when _).bind fun k => .look fun _ => .ite ?_ ?_
  · exact missing.plain.bind fun gap => .pure rfl
  · refine (clauseName _).bind fun n ns h => h ▸ ?_
    refine Lists.bind (Lists.when (quiet_name.bind fun _ => clauseName_one _) _) fun a => ?_
    refine (((spans_token _).leaf rfl).one.when _).plain.bind fun rest => .pure (by simp)

omit hg in
/-- a clause is one node, of a kind that nothing else is of -/
theorem clause : Yields t (fun _ => True)
    (fun n ns => [n] = ns ∧ n.kind = .exportClause ∧ n.role = .part) [] clause := by
  have hnames : Lists t Plain []
      (mark "\x7b" >>= fun _ => sepUntil Rules.specifier (mark ",") "\x7d") :=
    (quiet_mark _).bind fun _ => specifier.sepUntil (quiet_mark _) _
  have hbody : Yields t Plain (fun (a : Kind × List Node) ns => a.1 = .exportClause ∧ a.2 = ns) []
      ((fun cs => (Kind.exportClause, cs)) <$>
        (mark "\x7b" >>= fun _ => sepUntil Rules.specifier (mark ",") "\x7d")) :=
    .map (hnames.mono (fun _ h => h) fun _ _ h => ⟨rfl, h⟩)
  intro r hr
  refine (ends_nodeOf (K := (· = .exportClause)) hbody (fun _ _ h => h.2) ?_ hr).mono
    fun n s h => ?_
  · intro r u a ws _ _ _ _ h
    obtain ⟨k, l⟩ := a
    obtain rfl : k = .exportClause := h.1
    exact ⟨⟨nofun, nofun, nofun, nofun, nofun, nofun, nofun⟩, nofun, rfl⟩
  · obtain ⟨cs, hcs, hnil, hcomment, hkind, hrole⟩ := h
    exact ⟨_, hcs, fun _ _ => trivial, (Reads.nodesOf_snoc hnil hcomment).symm, hkind, hrole⟩

omit hg in
theorem importSpecifier : Lists t Plain [] importSpecifier := by
  refine (Gives.one (Lists.node_plain ?_ rfl)).plain
  have hmark : Lists t Part [] (Parser.when seesTypeMark (skip name)) := quiet_name.skip.when _
  refine hmark.quiet.bind fun _ => (clauseName _).bind fun n ns h => h ▸ ?_
  exact Lists.bind (Lists.when (quiet_name.bind fun _ => clauseName_one _) _) fun a => .pure rfl

omit hg in
theorem importNames : Gives t importNames :=
  Lists.node_plain ((quiet_mark _).bind fun _ => importSpecifier.sepUntil (quiet_mark _) _) rfl

omit hg in
theorem everything : Lists t Plain [] everything :=
  (quiet_mark _).bind fun _ => (quiet_word _).bind fun _ => clauseName_one _

omit hg in
theorem importClause : Lists t Plain [] importClause := by
  refine .look fun _ => .ite importNames.one.plain (.look fun _ => .ite everything ?_)
  refine Gives.bind_plain ((spans_token _).leaf rfl) fun n => Lists.bind (Lists.when ?_ _) fun more =>
    .pure rfl
  refine (quiet_mark _).bind fun _ => .look fun _ => ?_
  exact .ite everything importNames.one.plain

theorem importParts : Lists t Plain [] g.importParts := by
  refine importClause.bind fun c => .look fun _ => .ite ?_ ?_
  · refine (quiet_mark _).bind fun _ => (hg.operand _).bind_plain fun n => ?_
    exact (quiet_semicolon _).bind fun _ => .pure rfl
  · refine (quiet_word _).bind fun _ => hg.source.bind fun s => ?_
    exact (quiet_semicolon _).bind fun _ => .pure rfl

theorem importStatement : Gives t g.importStatement := by
  refine Lists.node_plain ((quiet_word _).bind fun _ => .look fun _ => .ite ?_ ?_) rfl
  · exact hg.source.bind fun s => (quiet_semicolon _).bind fun _ => .pure rfl
  · have htyped : Lists t Part [] (Parser.when seesTypedImport (skip name)) :=
      quiet_name.skip.when _
    exact htyped.quiet.bind fun _ => hg.importParts

end Rules.Sound

/-! ## exports -/

/-- what follows the word `export` -/
inductive Exported (t : Text) : List Node → Prop where
  /-- parts without a keyword and without a clause -/
  | parts {es : List Node} : (∀ n ∈ es, Plain n) → Exported t es
  /-- the keyword `default`, and one thing behind it -/
  | default {k v : Node} {ds : List Node} : k.kind = .defaultKeyword → k.role = .part →
      k.text t = "default".toList → (∀ d ∈ ds, Part d) → Plain v → v.isExported = true →
      Exported t (k :: ds ++ [v])
  /-- a clause, perhaps with a mark in front of it and a module behind it -/
  | clause {c : Node} {ks post : List Node} : (∀ k ∈ ks, Plain k ∧ k.role = .part) → c.kind = .exportClause →
      c.role = .part → (∀ n ∈ post, Plain n ∧ n.isExported = false) → Exported t (ks ++ c :: post)

/-- what an export is made of: decorators, and what follows the word `export` -/
def ExportParts (t : Text) (ns : List Node) : Prop :=
  ∃ ds es, ns = ds ++ es ∧ (∀ d ∈ ds, Part d) ∧ Exported t es

/-- nodes that are no clauses -/
theorem filter_exportClause {ns : List Node} (h : ∀ n ∈ ns, Plain n) :
    (ns.filter fun d => d.kind = .exportClause) = [] :=
  List.filter_eq_nil_iff.mpr fun n hn hc => (h n hn).2.2 (of_decide_eq_true hc)

theorem filter_isExported {ns : List Node} (h : ∀ n ∈ ns, Plain n ∧ n.role = .part) :
    ns.filter Node.isExported = [] := by
  refine List.filter_eq_nil_iff.mpr fun n hn hc => ?_
  rw [Node.isExported_eq_false (h n hn).2] at hc
  cases hc

theorem Part.mute {n : Node} (h : Part n) : Plain n ∧ n.role = .part := ⟨h.1, h.2.1⟩

/-- parts in front of an export do not change its form -/
theorem exportForm_append {ds es : List Node} (h : Node.ExportForm es)
    (hds : ∀ d ∈ ds, Plain d ∧ d.role = .part) : Node.ExportForm (ds ++ es) := by
  constructor
  · rintro ⟨k, hk, hkey⟩
    have hke : k ∈ es := (List.mem_append.mp hk).resolve_left fun h => (hds k h).1.2.1 hkey
    rw [List.filter_append, filter_isExported hds]
    exact h.value ⟨k, hke, hkey⟩
  · intro c hc hk
    have hce : c ∈ es := (List.mem_append.mp hc).resolve_left fun h => (hds c h).1.2.2 hk
    obtain ⟨h1, h2⟩ := h.clause c hce hk
    rw [List.filter_append, filter_exportClause fun d hd => (hds d hd).1]
    refine ⟨h1, fun d hd => ?_⟩
    rcases List.mem_append.mp hd with hd | hd
    · exact ⟨(hds d hd).1.2.1, Node.isExported_eq_false (hds d hd).2⟩
    · exact h2 d hd

/-- the forms of what follows the word `export` are told apart -/
theorem Exported.form {es : List Node} (h : Exported t es) : Node.ExportForm es := by
  cases h with
  | parts hes => exact ⟨fun ⟨k, hk, hkey⟩ => absurd hkey (hes k hk).2.1,
      fun c hc hk => absurd hk (hes c hc).2.2⟩
  | @default k v ds hk hrole _ hds hv hvr =>
    constructor
    · intro _
      refine ⟨v, ?_⟩
      rw [List.cons_append, List.filter_cons_of_neg (by simp [Node.isExported_eq_false hrole]),
        List.filter_append, filter_isExported fun d hd => (hds d hd).mute,
        List.filter_cons_of_pos hvr]
      rfl
    · intro c hc hck
      exfalso
      rcases List.mem_cons.mp hc with rfl | h
      · rw [hk] at hck
        cases hck
      rcases List.mem_append.mp h with h | h
      · exact (hds c h).1.2.2 hck
      · rw [List.mem_singleton.mp h] at hck
        exact hv.2.2 hck
  | @clause c ks post hks hc hrole hpost =>
    refine exportForm_append ⟨?_, ?_⟩ hks
    · rintro ⟨k, hk, hkey⟩
      rcases List.mem_cons.mp hk with rfl | h
      · rw [hc] at hkey
        cases hkey
      · exact absurd hkey (hpost k h).1.2.1
    · intro c' hc' hk'
      obtain rfl : c' = c := by
        rcases List.mem_cons.mp hc' with h | h
        · exact h
        · exact absurd hk' (hpost c' h).1.2.2
      refine ⟨?_, fun d hd => ?_⟩
      · rw [List.filter_cons, if_pos (decide_eq_true hc), filter_exportClause fun n hn => (hpost n hn).1]
      · rcases List.mem_cons.mp hd with rfl | h
        · rw [hc]
          exact ⟨nofun, Node.isExported_eq_false hrole⟩
        · exact ⟨(hpost d h).1.2.1, (hpost d h).2⟩

namespace ExportParts

variable {ns : List Node} (h : ExportParts t ns)
include h

/-- the keyword is written out, and what is exported stands behind it -/
theorem keyword {k : Node} (hk : k ∈ ns) (hkey : k.kind = .defaultKeyword) :
    k.text t = "default".toList ∧ ∃ pre post, ns = pre ++ k :: post ∧
      ∀ v ∈ ns, v.isExported = true → v ∈ post := by
  obtain ⟨ds, es, rfl, hds, hes⟩ := h
  have hke : k ∈ es := by
    rcases List.mem_append.mp hk with h | h
    · exact absurd hkey (hds k h).1.2.1
    · exact h
  cases hes with
  | parts hes => exact absurd hkey (hes k hke).2.1
  | @clause c ks post hks hc _ hpost =>
    rcases List.mem_append.mp hke with h | h
    · exact absurd hkey (hks k h).1.2.1
    rcases List.mem_cons.mp h with rfl | h
    · rw [hc] at hkey
      cases hkey
    · exact absurd hkey (hpost k h).1.2.1
  | @default k' v ds' hk' hrole htext hds' hv hvr =>
    obtain rfl : k = k' := by
      rcases List.mem_cons.mp hke with h | h
      · exact h
      rcases List.mem_append.mp h with h | h
      · exact absurd hkey (hds' k h).1.2.1
      · rw [List.mem_singleton.mp h] at hkey
        exact absurd hkey hv.2.1
    refine ⟨htext, ds, ds' ++ [v], rfl, fun w hw hwr => ?_⟩
    rcases List.mem_append.mp hw with h | h
    · rw [Node.isExported_eq_false (hds w h).2.1] at hwr
      cases hwr
    · rcases List.mem_cons.mp h with rfl | h
      · rw [Node.isExported_eq_false hrole] at hwr
        cases hwr
      · exact h

/-- the forms of an export are told apart -/
theorem form : Node.ExportForm ns := by
  obtain ⟨ds, es, rfl, hds, hes⟩ := h
  exact exportForm_append hes.form fun d hd => (hds d hd).mute

end ExportParts

section

variable {ws : List Node} (hcomment : ∀ n ∈ ws, n.kind = .comment → n.role = .part)
  (h : ExportParts t (nodesOf ws))
include hcomment h

omit h in
/-- a comment is nothing that is exported -/
theorem mem_nodesOf_of_isExported {v : Node} (hv : v ∈ ws) (hvr : v.isExported = true) :
    v ∈ nodesOf ws := by
  refine mem_nodesOf.mpr ⟨hv, fun hk => ?_⟩
  rw [Node.isExported_eq_false (hcomment v hv hk)] at hvr
  cases hvr

theorem ExportParts.keywordFirst {a b : Nat} (hrow : Node.Row a b ws) :
    Node.KeywordFirst t ws := by
  intro k hk hkey
  have hkn : k ∈ nodesOf ws := mem_nodesOf.mpr ⟨hk, by rw [hkey]; nofun⟩
  obtain ⟨htext, pre, post, hns, hpost⟩ := h.keyword hkn hkey
  refine ⟨htext, fun v hv hvrole => ?_⟩
  have hvr := Node.isExported_iff.mpr hvrole
  have hrow' : Node.Row a b (pre ++ k :: post) := hns ▸ hrow.sublist List.filter_sublist
  exact (hrow'.split.2.2.mem (hpost v (mem_nodesOf_of_isExported hcomment hv hvr) hvr)).1

/-- comments do not change the form of an export -/
theorem ExportParts.exportForm : Node.ExportForm ws := by
  have hform := h.form
  have hexported : (nodesOf ws).filter Node.isExported = ws.filter Node.isExported := by
    unfold nodesOf
    rw [List.filter_filter]
    refine List.filter_congr fun v hv => ?_
    cases hvr : v.isExported with
    | false => rfl
    | true => exact decide_eq_true (mem_nodesOf.mp (mem_nodesOf_of_isExported hcomment hv hvr)).2
  have hclause : (nodesOf ws).filter (fun d => d.kind = .exportClause) =
      ws.filter fun d => d.kind = .exportClause := by
    unfold nodesOf
    rw [List.filter_filter]
    refine List.filter_congr fun v _ => ?_
    by_cases hk : v.kind = .exportClause <;> simp [hk]
  constructor
  · rintro ⟨k, hk, hkey⟩
    rw [← hexported]
    exact hform.value ⟨k, mem_nodesOf.mpr ⟨hk, by rw [hkey]; nofun⟩, hkey⟩
  · intro c hc hk
    obtain ⟨h1, h2⟩ := hform.clause c (mem_nodesOf.mpr ⟨hc, by rw [hk]; nofun⟩) hk
    refine ⟨hclause ▸ h1, fun d hd => ?_⟩
    by_cases hdk : d.kind = .comment
    · exact ⟨by rw [hdk]; nofun, Node.isExported_eq_false (hcomment d hd hdk)⟩
    · exact h2 d (mem_nodesOf.mpr ⟨hd, hdk⟩)

end

/-- **An export is one node with its keyword in front.** -/
theorem Gives.exportStatement {p : Parser (List Node)}
    (hp : Yields t (fun _ => True) (fun l ns => l = ns ∧ ExportParts t ns) [] p) :
    Gives t (node .exportStatement p) := by
  have hbody : Yields t (fun _ => True)
      (fun (a : Kind × List Node) ns => a.1 = .exportStatement ∧ a.2 = ns ∧ ExportParts t ns) []
      ((fun cs => (Kind.exportStatement, cs)) <$> p) :=
    .map (hp.mono (fun _ h => h) fun _ _ h => ⟨rfl, h⟩)
  refine .nodeOf_of hbody (fun _ _ h => h.2.1) fun r u a ws hr _ hws _ h => ?_
  obtain ⟨k, l⟩ := a
  obtain ⟨rfl, -, hparts⟩ : k = .exportStatement ∧ l = nodesOf ws ∧ ExportParts t (nodesOf ws) := h
  refine ⟨⟨nofun, nofun, nofun, nofun, fun _ => ?_, fun _ => hparts.exportForm hws.comment, nofun⟩,
    nofun, rfl, nofun⟩
  rcases hws.row with rfl | hrow
  · exact fun k hk => absurd hk List.not_mem_nil
  · exact hparts.keywordFirst hws.comment hrow

/-- what is known of each node that is listed -/
theorem Yields.listed {P : Node → Prop} {p : Parser (List Node)} (hp : Lists t P [] p) :
    Yields t (fun _ => True) (fun l ns => l = ns ∧ ∀ n ∈ ns, P n) [] p := by
  intro r hr
  refine (hp r hr).mono fun l s h => ?_
  obtain ⟨ws, hws, hP, rfl⟩ := h
  exact ⟨ws, hws, fun _ _ => trivial, rfl, hP⟩

theorem Gives.listed {p : Parser Node} (hp : Gives t p) :
    Yields t (fun _ => True) (fun n ns => [n] = ns ∧ Part n) [] p := by
  intro r hr
  refine (hp r hr).mono fun n s h => ?_
  obtain ⟨-, -, -, hn⟩ := id h
  obtain ⟨ws, hws, -, heq⟩ := h.yielded
  exact ⟨ws, hws, fun _ _ => trivial, heq, hn⟩

/-- what is known of a node that is listed in the role `c` -/
theorem Gives.listed_role {p : Parser Node} (hp : Gives t p) (c : Role) :
    Yields t (fun _ => True) (fun n ns => [n.withRole c] = ns ∧ Plain (n.withRole c)) [] p := by
  intro r hr
  refine (hp r hr).mono fun n s h => ?_
  obtain ⟨-, -, -, hn⟩ := id h
  obtain ⟨ws, hws, -, heq⟩ := h.inRole c
  exact ⟨ws, hws, fun _ _ => trivial, heq, hn.1.withRole c⟩

theorem isExported_withRole (n : Node) (c : Role) :
    (n.withRole c).isExported = (c = .value || c = .declaration : Bool) := by
  cases n
  rfl

/-- parts without a keyword and without a clause -/
theorem Lists.exported {p : Parser (List Node)} (hp : Lists t Plain [] p) :
    Yields t (fun _ => True) (fun l ns => l = ns ∧ Exported t ns) [] p :=
  (Yields.listed hp).mono (fun _ h => h) fun _ _ h => ⟨h.1, .parts h.2⟩

theorem text_word {r s : Reader} {w : Text} {a : Span} (hr : r.At t)
    (h : word w r = .done a s) : t.slice a.start a.stop = w := by
  unfold Parser.word at h
  split at h
  · next hw =>
    have hw' : r.word = w := of_decide_eq_true hw
    unfold token at h
    dsimp only at h
    split at h
    · next n hn =>
      cases h
      obtain ⟨cs, hcs⟩ := hr.settles
      have hword : r.word = List.take (n + 1) r.settle.rest := by
        unfold Reader.word
        simp only [hn]
      rw [← hw', hword]
      exact hcs.stands.slice_offset (n + 1)
    · cases h
  · cases h

theorem yields_defaultKeyword : Yields t (fun _ => True)
    (fun k ns => [k] = ns ∧ k.kind = .defaultKeyword ∧ k.role = .part ∧
      k.text t = "default".toList) [] (leaf .defaultKeyword (word "default")) := by
  intro r hr
  refine (spans_word "default" r hr).done.map fun a s h => ?_
  obtain ⟨⟨cs, hcs, hnil, hrow, hle, hstop, hstart⟩, hw⟩ := h
  have hbound : t.isBoundary a.stop = true := by
    rw [hstop]
    exact hcs.stands.last_boundary
  have hkind : (Node.mk .defaultKeyword .part a []).kind ≠ .comment := nofun
  have hreg : (Node.mk .defaultKeyword .part a []).Regular t :=
    .intro ⟨⟨nofun, nofun, nofun, nofun, nofun, nofun, nofun⟩, hle, hstart, hbound⟩
      fun _ hc => absurd hc List.not_mem_nil
  exact ⟨_, hcs.snoc hreg hrow hkind (Nat.le_of_eq hstop), fun _ _ => trivial,
    (Reads.nodesOf_snoc hnil hkind).symm, rfl, rfl, text_word hr hw⟩

namespace Rules.Sound

variable (hg : g.Sound t)
include hg

theorem source_unexported : Yields t (fun _ => True)
    (fun l ns => l = ns ∧ ∀ n ∈ ns, Plain n ∧ n.isExported = false) [] g.source := by
  have hs : Gives t (leaf .construct (token .string)) := (spans_token _).leaf rfl
  have hattributes : Lists t Part [] (Parser.when (fun r => r.seesOneOf ["with", "assert"] &&
      r.afterWord.sees "\x7b") do
      let _ ← name
      Parser.one g.objectOf) := Lists.when (quiet_name.bind fun _ => hg.objectOf.one) _
  refine (hs.listed_role .source).bind fun s ns h => ?_
  refine (Yields.listed hattributes).bind fun as ms h' => .pure ?_
  obtain ⟨rfl, hplain⟩ := h
  obtain ⟨rfl, hparts⟩ := h'
  refine ⟨rfl, fun n hn => ?_⟩
  rcases List.mem_cons.mp hn with rfl | hn
  · exact ⟨hplain, isExported_withRole s .source⟩
  · exact ⟨(hparts n hn).1, Node.isExported_eq_false (hparts n hn).2.1⟩

theorem defaultExport :
    Yields t (fun _ => True) (fun l ns => l = ns ∧ Exported t ns) [] g.defaultExport := by
  refine yields_defaultKeyword.bind fun k ns h => ?_
  obtain ⟨rfl, hk, hrole, htext⟩ := h
  refine .orElse ?_ ?_
  · refine (Yields.listed (hg.decorator.many _)).bind fun ds ns h => ?_
    refine (hg.declaration.listed_role .declaration).bind fun d ms h' => .pure ?_
    obtain ⟨rfl, hds⟩ := h
    obtain ⟨rfl, hd⟩ := h'
    exact ⟨rfl, .default hk hrole htext hds hd (isExported_withRole d _)⟩
  · refine ((hg.expression _).listed_role .value).bind fun v ms h' => ?_
    obtain ⟨rfl, hv⟩ := h'
    refine (quiet_semicolon _).bind fun _ => .pure ⟨rfl, ?_⟩
    exact .default hk hrole htext (List.forall_mem_nil Part) hv (isExported_withRole v _)

theorem fromClause : Yields t (fun _ => True)
    (fun l ns => l = ns ∧ ∀ n ∈ ns, Plain n ∧ n.isExported = false) []
    (Parser.when (·.seesWord "from") do
      let _ ← name
      g.source) :=
  .look fun _ => .ite (quiet_name.bind fun _ => hg.source_unexported) (.pure ⟨rfl, nofun⟩)

omit hg in
theorem typeKeyword : Yields t (fun _ => True)
    (fun n ns => [n] = ns ∧ Plain n ∧ n.role = .part) [] (leaf .typeKeyword name) := by
  intro r hr
  refine ((spans_token _).mark r hr).mono fun n s h => ?_
  obtain ⟨ws, hws, hP, hn, hrole⟩ := h
  have hn' : [n] = nodesOf ws := hn
  exact ⟨ws, hws, fun _ _ => trivial, hn, hP n (hn' ▸ List.mem_singleton_self n), hrole⟩

omit hg in
theorem oneClause : Yields t (fun _ => True) (fun l ns => l = ns ∧
    ∃ c, l = [c] ∧ c.kind = .exportClause ∧ c.role = .part) [] (Parser.one Rules.clause) :=
  .map (clause.mono (fun _ h => h) fun c _ h => ⟨h.1, c, rfl, h.2⟩)

theorem exported :
    Yields t (fun _ => True) (fun l ns => l = ns ∧ Exported t ns) [] g.exported := by
  refine .look fun w => .look fun after => .ite hg.defaultExport ?_
  have hstar : Lists t Plain [] (Rules.everything <|> skip (mark "*")) :=
    Yields.orElse everything (quiet_mark _).skip
  have hfrom : Lists t Plain [] (Parser.when (·.seesWord "from") do
      let _ ← name
      g.source) := Lists.when (quiet_name.bind fun _ => hg.source) _
  refine .look fun _ => .ite (Lists.exported ?_) (.look fun _ => .ite ?_ (.ite ?_ ?_))
  · -- everything that another module exports
    refine hstar.bind fun n => (quiet_word _).bind fun _ => hg.source.bind fun s => ?_
    exact (quiet_semicolon _).bind fun _ => .pure rfl
  · -- the names of a clause
    refine clause.bind fun c ns h => hg.fromClause.bind fun s ms h' => ?_
    refine (quiet_semicolon _).bind fun _ => ?_
    obtain ⟨rfl, hc, hrole⟩ := h
    obtain ⟨rfl, hs⟩ := h'
    exact .pure ⟨rfl, .clause (List.forall_mem_nil _) hc hrole hs⟩
  · -- types, which go by any name or by those of a clause
    refine typeKeyword.bind fun k ns h => ?_
    obtain ⟨rfl, hk⟩ := h
    have hks : ∀ n ∈ [k], Plain n ∧ n.role = .part := fun n hn => List.mem_singleton.mp hn ▸ hk
    refine .ite ((Yields.listed hstar).bind fun n ns h => ?_) (oneClause.bind fun n ns h => ?_)
    · refine (Yields.listed hfrom).bind fun s ms h' => (quiet_semicolon _).bind fun _ => .pure ?_
      obtain ⟨rfl, hn⟩ := h
      obtain ⟨rfl, hs⟩ := h'
      have hall : ∀ m ∈ [k] ++ (n ++ s), Plain m := by
        simp only [List.forall_mem_append]
        exact ⟨fun m hm => (hks m hm).1, hn, hs⟩
      rw [← List.append_assoc] at hall
      exact ⟨by simp, .parts hall⟩
    · refine hg.fromClause.bind fun s ms h' => (quiet_semicolon _).bind fun _ => .pure ?_
      obtain ⟨rfl, c, rfl, hc, hrole⟩ := h
      obtain ⟨rfl, hs⟩ := h'
      exact ⟨rfl, .clause hks hc hrole hs⟩
  · refine Lists.exported (.look fun _ => .ite ?_ (.ite ?_ ?_))
    · refine (quiet_mark _).bind fun _ => (hg.expression _).bind_plain fun n => ?_
      exact (quiet_semicolon _).bind fun _ => .pure rfl
    · refine quiet_name.bind fun _ => quiet_name.bind fun _ => ?_
      refine Gives.bind_plain ((spans_token _).leaf rfl) fun n => ?_
      exact (quiet_semicolon _).bind fun _ => .pure rfl
    · refine (hg.decorator.many _).plain.bind fun ds => ?_
      exact hg.declaration.bind_role .declaration fun d => .pure rfl

theorem exportStatement : Gives t g.exportStatement := by
  refine .exportStatement ((Yields.listed (hg.decorator.many _)).bind fun ds ns h => ?_)
  obtain ⟨rfl, hds⟩ := h
  refine (quiet_word _).bind fun _ => hg.exported.bind fun es ns h => .pure ?_
  obtain ⟨rfl, hes⟩ := h
  exact ⟨rfl, ds, es, rfl, hds, hes⟩

/-! ## control -/

theorem condition : Gives t g.condition := by
  refine Lists.node ((quiet_mark _).bind fun _ => (hg.sequence _).bind fun n => ?_) rfl
  exact (quiet_mark _).bind fun _ => .pure rfl

theorem overHead_target : Gives t (overHead.overTarget g) := by
  refine .look fun _ => .ite ?_ (hg.operand _)
  exact .after quiet_name fun _ => hg.target

theorem overHead : Lists t Part [] g.overHead := by
  refine hg.overHead_target.bind fun n => Lists.bind (Lists.when ?_ _) fun v => ?_
  · exact (quiet_mark _).bind fun _ => (hg.unary _).one
  · refine Quiet.bind ((quiet_word _).orElse (quiet_word _)) fun _ => ?_
    exact (hg.sequence _).bind fun m => .pure (by simp)

theorem counterHead_start : Lists t Part [] (counterHead.counterStart g) := by
  refine .look fun _ => .ite (quiet_mark _).skip (.look fun _ => .ite (Gives.one ?_) ?_)
  · refine Lists.node (quiet_name.bind fun _ => hg.declarators.bind fun ns => ?_) rfl
    exact (quiet_mark _).bind fun _ => .pure rfl
  · exact (hg.sequence _).bind fun n => (quiet_mark _).bind fun _ => .pure rfl

theorem counterHead : Lists t Part [] g.counterHead := by
  refine hg.counterHead_start.bind fun first => ((hg.sequence _).one.when _).bind fun test => ?_
  refine (quiet_mark _).bind fun _ => ((hg.sequence _).one.when _).bind fun step => ?_
  exact .pure rfl

theorem forStatement : Gives t g.forStatement := by
  refine Lists.node ((quiet_word _).bind fun _ => (quiet_word _).optional.bind fun _ => ?_) rfl
  refine (quiet_mark _).bind fun _ => Lists.bind (hg.overHead.orElse hg.counterHead) fun h => ?_
  exact (quiet_mark _).bind fun _ => hg.statement.bind fun b => .pure rfl

theorem ifStatement : Gives t g.ifStatement := by
  refine Lists.node ((quiet_word _).bind fun _ => hg.condition.bind fun c => ?_) rfl
  refine hg.statement.bind fun a => Lists.bind (Lists.when ?_ _) fun b => .pure rfl
  exact quiet_name.bind fun _ => hg.statement.one

theorem switchCase_label : Lists t Part [] (switchCase.label g) := by
  refine .look fun _ => .ite quiet_name.skip ?_
  exact (quiet_word _).bind fun _ => (hg.sequence _).one

theorem switchCase : Lists t Part [] g.switchCase := by
  refine Gives.one (Lists.node (hg.switchCase_label.bind fun c => ?_) rfl)
  exact (quiet_mark _).bind fun _ => (hg.statement.one.many _).bind fun ns => .pure rfl

theorem switchStatement : Gives t g.switchStatement := by
  refine Lists.node ((quiet_word _).bind fun _ => hg.condition.bind fun c => ?_) rfl
  refine Gives.bind (Lists.node ((quiet_mark _).bind fun _ => ?_) rfl) fun b => .pure rfl
  exact (hg.switchCase.many _).bind fun ns => (quiet_mark _).bind fun _ => .pure rfl

theorem tryStatement : Gives t g.tryStatement := by
  refine Lists.node ((quiet_word _).bind fun _ => hg.block.bind fun b => ?_) rfl
  refine Lists.bind (Lists.when (quiet_name.bind fun _ => ?_) _) fun c => ?_
  · refine Lists.bind (Lists.when ?_ _) fun p => hg.block.bind fun b => .pure rfl
    refine (quiet_mark _).bind fun _ => hg.target.bind fun n => ?_
    refine ((hg.annotation _).when _).bind fun ty => (quiet_mark _).bind fun _ => .pure rfl
  · refine Lists.bind (Lists.when ?_ _) fun f => .pure rfl
    exact quiet_name.bind fun _ => hg.block.one

theorem leaving : Gives t g.leaving := by
  refine Lists.node (quiet_name.bind fun _ => .look fun _ => .ite ?_ ?_) rfl
  · exact (quiet_semicolon _).bind fun _ => .pure rfl
  · exact (hg.sequence _).bind fun n => (quiet_semicolon _).bind fun _ => .pure rfl

theorem doStatement : Gives t g.doStatement := by
  refine Lists.node ((quiet_word _).bind fun _ => hg.statement.bind fun b => ?_) rfl
  refine (quiet_word _).bind fun _ => hg.condition.bind fun c => .look fun _ => .ite ?_ ?_
  · exact (quiet_mark _).bind fun _ => .pure rfl
  · exact (quiet_maybeEnded _).bind fun _ => .pure rfl

theorem expressionStatement : Gives t g.expressionStatement := by
  refine Lists.node ((hg.sequence _).bind fun n => ?_) rfl
  exact (quiet_semicolon _).bind fun _ => .pure rfl

theorem namespaceStatement : Gives t g.namespaceStatement := by
  refine Lists.node (hg.moduleOf.bind fun n => ?_) rfl
  exact (quiet_semicolon _).bind fun _ => .pure rfl

theorem wordStatement : Gives t g.wordStatement := by
  refine .look fun w => .look fun after => .ite (Lists.node ?_ rfl) (.look fun _ => ?_)
  · refine ((spans_token _).leaf rfl).bind fun n => ?_
    exact (quiet_semicolon _).bind fun _ => .pure rfl
  · refine .ite hg.disposed (.ite hg.exportStatement (.ite ?_ (.ite hg.ifStatement ?_)))
    · exact .look fun _ => .ite hg.importAlias hg.importStatement
    · refine .ite hg.forStatement (.ite (Lists.node ?_ rfl) (.ite hg.doStatement ?_))
      · refine quiet_name.bind fun _ => hg.condition.bind fun c => ?_
        exact hg.statement.bind fun b => .pure rfl
      · refine .ite hg.switchStatement (.ite hg.tryStatement (.ite hg.leaving (.ite ?_ ?_)))
        · refine Lists.node (quiet_name.bind fun _ => ?_) rfl
          exact (quiet_mark _).bind fun _ => hg.statement.one
        · refine .look fun d => ?_
          split
          · exact hg.namespaceStatement
          · exact hg.declaration
          · exact hg.expressionStatement

/-- **A statement is one node.** -/
theorem wholeStatement : Gives t g.wholeStatement := by
  refine .look fun _ => .ite hg.block (.look fun _ => .ite ((spans_token _).leaf rfl) ?_)
  refine .look fun _ => .ite (hg.exportStatement.orElse hg.classDeclaration) ?_
  exact .look fun _ => .ite hg.wordStatement hg.expressionStatement

end Rules.Sound

end StorySuite.Grammar
