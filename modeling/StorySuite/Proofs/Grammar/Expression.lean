import StorySuite.Proofs.Grammar.Type
import StorySuite.Grammar.Expression

/-!
# What the rules for expressions read

* `Rules.Sound.objectOf`        **an object is one node, which begins with its brace**;
* `Rules.Sound.parentheses`     what stands in parentheses, whichever way it is meant;
* `Rules.Sound.wholeOperand`    operands, which grow by what follows them;
* `Rules.Sound.fullExpression`  **expressions**, each one node.
-/

namespace StorySuite.Grammar

open Grammar.Parser

variable {t : Text} {g : Rules}

namespace Rules.Sound

variable (hg : g.Sound t)
include hg

theorem sequence (line : Line) : Gives t (g.sequence line) := by
  refine (hg.expression line).extend fun n => .look fun b => .ite (.grow ?_ rfl) (.pure rfl)
  exact (quiet_mark _).bind fun _ => (hg.expression _).one.sepBy (quiet_mark _)

theorem spread : Lists t Part [] g.spread :=
  (quiet_mark _).optional.bind fun _ => (hg.expression _).one

theorem arguments : Gives t g.arguments :=
  Lists.node ((quiet_mark _).bind fun _ => hg.spread.sepUntil (quiet_mark _) _) rfl

theorem array : Gives t g.array := by
  refine Lists.node ((quiet_mark _).bind fun _ => ?_) rfl
  refine .loop_bind (fun acc => acc.reverse.flatten) rfl (fun acc => ?_) fun acc => ?_
  · refine .look fun b => .ite (.pure rfl) (.look fun b => .ite ?_ ?_)
    · exact (quiet_mark _).bind fun _ => .pure rfl
    · refine hg.spread.bind fun l => .look fun _ => ?_
      exact .ite ((quiet_mark _).bind fun _ => .pure (by simp)) (.pure (by simp))
  · exact (quiet_mark _).bind fun _ => .pure rfl

/-! ## functions and classes -/

theorem signature : Lists t Part [] g.signature := by
  refine (hg.typeParameters.when _).bind fun ts => hg.parameters.bind fun ps => ?_
  exact ((hg.annotation _).when _).bind fun ty => .pure rfl

theorem arrowBody (line : Line) : Lists t Part [] (g.arrowBody line) :=
  (quiet_mark _).bind fun _ => .look fun _ => .ite hg.block.one (hg.expression _).one

theorem arrow (line : Line) : Lists t Part [] (g.arrow line) := by
  refine (hg.typeParameters.when _).bind fun ts => hg.parameters.bind fun ps => ?_
  refine ((hg.annotation _).when _).bind fun ty => (hg.arrowBody _).bind fun b => ?_
  exact .pure rfl

theorem functionTail : Lists t Part [] g.functionTail := by
  refine (quiet_mark _).optional.bind fun _ => ?_
  refine (((spans_token _).leaf rfl).one.when _).bind fun n => hg.signature.bind fun s => ?_
  exact .pure rfl

omit hg in
theorem modifiers : Quiet t modifiers :=
  (quiet_words _).bind fun _ => (quiet_mark _).optional.bind fun _ => .pure rfl

theorem method : Lists t Part [] g.method := by
  refine (quiet_mark _).optional.bind fun _ => hg.signature.bind fun s => ?_
  exact hg.block.bind fun b => .pure rfl

omit hg in
theorem fieldEnd (line : Line) : Quiet t (fieldEnd line) := by
  refine .look fun b => .ite ?_ (quiet_semicolon _)
  exact (quiet_mark _).bind fun _ => .pure rfl

theorem field : Lists t Part [] g.field := by
  refine Quiet.bind (Quiet.optional ((quiet_mark _).orElse (quiet_markNot _ _))) fun _ => ?_
  refine ((hg.annotation _).when _).bind fun ty => .look fun b => .ite ?_ ?_
  · refine (quiet_mark _).bind fun _ => (hg.expression _).bind fun v => ?_
    exact (fieldEnd _).bind fun _ => .pure rfl
  · exact (fieldEnd _).bind fun _ => .pure rfl

theorem classMember : Lists t Part [] g.classMember := by
  refine .look fun b => .ite (quiet_name.bind fun _ => hg.block.one) (.orElse ?_ ?_)
  · refine (quiet_words _).bind fun _ => hg.indexMember.bind fun ns => ?_
    exact (fieldEnd _).bind fun _ => .pure rfl
  · refine modifiers.bind fun _ => hg.memberKey.bind fun k => .look fun b => .ite ?_ ?_
    · refine (quiet_mark _).optional.bind fun _ => hg.signature.bind fun s => ?_
      refine .look fun b => .ite ?_ ?_
      · exact hg.block.bind fun b => .pure rfl
      · exact (fieldEnd _).bind fun _ => .pure rfl
    · exact hg.field.bind fun f => .pure rfl

theorem heritage : Lists t Part [] g.heritage := by
  refine Lists.bind (Lists.when (quiet_name.bind fun _ => ?_) _) fun es => ?_
  · refine Lists.sepBy ?_ (quiet_mark _)
    exact (hg.operand _).bind fun n => (hg.typeArguments.when _).bind fun ts => .pure rfl
  · have his : Lists t Part [] (do
        let _ ← name
        Parser.sepBy (Parser.one (g.type .joined)) (mark ",")) :=
      quiet_name.bind fun _ => (hg.type _).one.sepBy (quiet_mark _)
    exact (his.when _).bind fun is => .pure rfl

theorem classTail : Lists t Part [] g.classTail := by
  refine (((spans_token _).leaf rfl).one.when _).bind fun n => ?_
  refine (hg.typeParameters.when _).bind fun ts => hg.heritage.bind fun h => ?_
  refine Gives.bind (Lists.node ((quiet_mark _).bind fun _ => ?_) rfl) fun b => .pure (by simp)
  refine Lists.bind (Lists.many ?_ _) fun ns => (quiet_mark _).bind fun _ => .pure rfl
  refine .look fun _ => .ite (quiet_mark _).skip ?_
  exact (hg.decorator.many _).bind fun ds => hg.classMember.bind fun m => .pure rfl

/-! ## objects -/

theorem propertyKey : Gives t g.propertyKey :=
  .look fun _ => .ite ((spans_token _).leaf rfl) (hg.memberKey.node rfl)

/-- a property is read with its key, which is kept in more than one way -/
theorem property : Gives t g.property := by
  refine .look fun b => .ite ?_ (.look fun b => .ite ?_ (.nodeOf (.look fun word => ?_)))
  · exact Lists.node ((quiet_mark _).bind fun _ => (hg.expression _).one) rfl
  · refine Lists.node (modifiers.bind fun _ => hg.propertyKey.bind fun k => ?_) rfl
    exact hg.method.bind fun m => .pure rfl
  · intro r hr
    refine (hg.propertyKey r hr).bind fun k s hk => ?_
    refine .look (.ite ?_ (.look (.ite ?_ ?_)))
    · refine (hk.inRole .key).bind fun _ h => h ▸ (quiet_mark _).bind fun _ => ?_
      exact (hg.expression _).bind_role .value fun v => .pure ⟨rfl, rfl⟩
    · refine hk.yielded.plain.bind fun _ h => h ▸ hg.method.plain.bind fun m => ?_
      exact .pure ⟨rfl, rfl⟩
    · refine hk.dropped.bind fun ns h => ?_
      subst h
      refine (quiet_guard _).bind fun _ => ?_
      have hv : Lists t Part [] (do
          let _ ← mark "="
          Parser.one (g.expression .joined)) :=
        (quiet_mark _).bind fun _ => (hg.expression _).one
      exact (hv.when _).plain.bind fun v => .pure ⟨rfl, rfl⟩

theorem properties : Lists t Part [] g.properties := by
  refine .loop_bind List.reverse rfl (fun acc => ?_) fun acc => ?_
  · refine .look fun b => .ite (.pure rfl) (.look fun b => .ite ?_ ?_)
    · exact (quiet_mark _).bind fun _ => .pure rfl
    · refine hg.property.bind fun n => .look fun _ => ?_
      exact .ite ((quiet_mark _).bind fun _ => .pure (by simp)) (.pure (by simp))
  · exact (quiet_mark _).bind fun _ => .pure rfl

theorem objectOf : Gives t g.objectOf := .object hg.properties

/-! ## parentheses -/

theorem cover :
    Yields t Part (fun c ns => c.items.flatten = ns ∧ ∀ l ∈ c.items, l ≠ []) [] g.cover := by
  refine (quiet_mark _).bind fun _ => Yields.bind (Q := fun (c : Cover) ns =>
    c.items.reverse.flatten = ns ∧ ∀ l ∈ c.items, l ≠ []) (.loop ⟨rfl, nofun⟩ ?_) ?_
  · rintro c ns ⟨rfl, hc⟩
    refine .look fun _ => .ite (.pure ⟨rfl, hc⟩) ?_
    refine (hg.decorator.many _).bind fun ds => (quiet_mark _).optional.bind fun rest => ?_
    refine (hg.expression _).bind fun n => (quiet_mark _).optional.bind fun question => ?_
    refine ((hg.annotation _).when _).bind fun ty => ?_
    -- every item holds an expression
    have hitems : ∀ v l, l ∈ (ds ++ n :: ty ++ v) :: c.items → l ≠ [] := by
      intro v l hl
      rcases List.mem_cons.mp hl with rfl | hl
      · simp
      · exact hc l hl
    refine Lists.bind (Lists.when ?_ _) fun v => .look fun comma => .look fun _ => .ite ?_ ?_
    · exact (quiet_mark _).bind fun _ => (hg.expression _).one
    · exact (quiet_mark _).bind fun _ => .look fun _ => .pure ⟨by simp, hitems v⟩
    · exact .look fun _ => .pure ⟨by simp, hitems v⟩
  · rintro c ns ⟨rfl, hc⟩
    refine (quiet_mark _).bind fun _ => .pure ⟨rfl, fun l hl => hc l (List.mem_reverse.mp hl)⟩

omit hg in
theorem contents?_eq {c : Cover} (hc : ∀ l ∈ c.items, l ≠ []) {k : Kind} {l : List Node}
    (h : c.contents? = some (k, l)) : (k.isOrdinary = true ∨
      k = .parenthesizedExpression ∧ c.items.flatten ≠ []) ∧ l = c.items.flatten := by
  unfold Cover.contents? at h
  split at h
  · cases h
  · split at h
    · cases h
    · next ns hns =>
      cases h
      rw [hns, List.flatten_cons, List.flatten_nil, List.append_nil]
      exact ⟨Or.inr ⟨rfl, hc _ (hns ▸ List.mem_cons_self)⟩, rfl⟩
    · split at h
      · cases h
        exact ⟨Or.inl rfl, rfl⟩
      · cases h

/-- what stands in parentheses is kept, whichever way it is meant -/
theorem parentheses (line : Line) : Gives t (g.parentheses line) := by
  refine .nodeOf_parentheses (hg.cover.bind fun c ns h => ?_)
  obtain ⟨rfl, hitems⟩ := h
  refine .look fun _ => .ite ?_ (.orElse ?_ ?_)
  · exact (hg.arrowBody _).bind fun b => .pure ⟨Or.inl rfl, rfl⟩
  · refine (hg.annotation _).bind fun ty => (hg.arrowBody _).bind fun b => .look fun _ => ?_
    exact (quiet_guard _).bind fun _ => .pure ⟨Or.inl rfl, rfl⟩
  · split
    · next content hc =>
      obtain ⟨k, l⟩ := content
      exact .pure (contents?_eq hitems hc)
    · exact .fail

/-! ## operands -/

theorem asynchronous (line : Line) : Gives t (g.asynchronous line) := by
  refine Lists.node ((quiet_word _).bind fun _ => .look fun _ => .ite ?_ ?_) rfl
  · refine quiet_name.bind fun _ => hg.functionTail.bind fun f => hg.block.bind fun b => ?_
    exact .pure rfl
  · refine .look fun _ => .ite ?_ (hg.arrow _)
    exact ((spans_token _).leaf rfl).bind fun n => (hg.arrowBody _).bind fun b => .pure rfl

theorem creation_called : Gives t (creation.called g) := by
  refine .look fun _ => .ite (Lists.node ?_ rfl) (.look fun _ => .ite ?_ (hg.operand _))
  · refine (quiet_mark _).bind fun _ => (hg.sequence _).bind fun n => ?_
    exact (quiet_mark _).bind fun _ => .pure rfl
  · exact (spans_token _).leaf rfl

theorem creation_maker : Lists t Part [] (creation.maker g) := by
  refine hg.creation_called.bind fun n => ?_
  refine .loop_bind (fun acc => n :: acc.reverse) rfl (fun acc => ?_) fun acc => .pure rfl
  refine .look fun _ => .ite ?_ (.look fun _ => .ite ?_ (.look fun _ => .ite ?_ (.pure rfl)))
  · refine (quiet_mark _).bind fun _ => (quiet_mark _).optional.bind fun _ => ?_
    exact quiet_name.bind fun _ => .pure rfl
  · refine (quiet_mark _).bind fun _ => (hg.sequence _).bind fun n => ?_
    exact (quiet_mark _).bind fun _ => .pure (by simp)
  · exact (quiet_mark _).bind fun _ => .pure rfl

theorem creation : Gives t g.creation := by
  refine Lists.node ((quiet_word _).bind fun _ => .look fun _ => .ite ?_ ?_) rfl
  · exact (quiet_mark _).bind fun _ => quiet_name.skip
  · refine hg.creation_maker.bind fun n => (hg.typeArguments.perhaps.when _).bind fun ts => ?_
    exact (hg.arguments.one.when _).bind fun as => .pure rfl

theorem wordAtom (line : Line) : Gives t (g.wordAtom line) := by
  have hleaf : ∀ {k : Kind}, k.isOrdinary = true → Gives t (leaf k name) := (spans_token _).leaf
  refine .look fun w => .look fun after => .ite .fail (.ite (Lists.node ?_ rfl) ?_)
  · refine quiet_name.bind fun _ => hg.functionTail.bind fun f => hg.block.bind fun b => ?_
    exact .pure rfl
  · refine .ite (Lists.node (quiet_name.bind fun _ => hg.classTail) rfl) (.ite hg.creation ?_)
    refine .ite (Lists.node ?_ rfl) (.ite ?_ (.ite (hleaf rfl) (hleaf rfl)))
    · exact (hleaf rfl).bind fun n => (hg.arrowBody _).bind fun b => .pure rfl
    · exact (hg.asynchronous _).orElse (hleaf rfl)

theorem angle (line : Line) : Gives t (g.angle line) := by
  have harrow : Gives t (node .construct (g.arrow line)) := (hg.arrow line).node rfl
  unfold Rules.angle
  refine .ite (hg.element.orElse harrow) (harrow.orElse (Lists.node ?_ rfl))
  refine hg.typeArguments.bind fun ts => Quiet.bind (Lists.many (P := Part) ?_ _).quiet fun _ => ?_
  · refine Quiet.skip ((quiet_mark _).orElse ((quiet_mark _).orElse ?_))
    exact (quiet_mark _).orElse (quiet_mark _)
  · exact (hg.operand _).bind fun n => .pure rfl

theorem atom (line : Line) : Gives t (g.atom line) := by
  have hleaf : ∀ l : Lexeme, Gives t (leaf .construct (token l)) := fun l => (spans_token l).leaf rfl
  refine .look fun rest => ?_
  split
  · exact hg.parentheses _
  · exact hg.array
  · exact hg.objectOf
  · exact .template (hg.sequence _)
  · exact hleaf _
  · exact hleaf _
  · exact hleaf _
  · exact hg.angle _
  · exact Lists.node ((quiet_mark _).bind fun _ => (quiet_chars _).skip) rfl
  · refine Lists.node ((hg.decorator.many _).bind fun ds => (quiet_word _).bind fun _ => ?_) rfl
    exact hg.classTail.bind fun c => .pure rfl
  · exact .ite (hleaf _) (hg.wordAtom _)
  · exact .fail

theorem postfixStep (line : Line) (n : Node) :
    Extends t n (·.getD n) (g.postfixStep line n) := by
  have hindex : Lists t Part [] (do
      let _ ← mark "["
      let i ← g.sequence .joined
      let _ ← mark "]"
      return [i]) := by
    refine (quiet_mark _).bind fun _ => (hg.sequence _).bind fun i => ?_
    exact (quiet_mark _).bind fun _ => .pure rfl
  refine .look fun _ => .ite (.pure rfl) (.look fun rest => ?_)
  split
  · exact .map (.grow hg.arguments.one rfl)
  · exact .map (.grow hindex rfl)
  · exact .map (.grow (Gives.template (hg.sequence _)).one rfl)
  · refine .ite (.pure rfl) (.map (.grow ?_ rfl))
    exact (quiet_mark _).bind fun _ => (quiet_mark _).optional.bind fun _ => quiet_name.skip
  · refine .ite (.pure rfl) (.map (.grow ((quiet_mark _).bind fun _ => .look fun _ => ?_) rfl))
    refine .ite hg.arguments.one (.look fun _ => .ite hindex (.look fun _ => .ite ?_ ?_))
    · exact hg.typeArguments.bind fun ts => hg.arguments.bind fun as => .pure rfl
    · exact (quiet_mark _).optional.bind fun _ => quiet_name.skip
  · exact .ite (.pure rfl) (.map (.wrap (quiet_mark _).skip rfl))
  · exact .map (.grow (quiet_mark _).skip rfl)
  · exact .map (.grow (quiet_mark _).skip rfl)
  · refine .ite (.pure rfl) (.optional (.grow ?_ rfl))
    refine hg.typeArguments.bind fun ts => .look fun _ => ?_
    exact (quiet_guard _).bind fun _ => .pure rfl
  · exact .pure rfl

/-- **An operand is one node**, and so is an operand with what follows it. -/
theorem wholeOperand (line : Line) : Gives t (g.wholeOperand line) :=
  (hg.atom line).extend fun _ => .loop fun m => hg.postfixStep line m

/-! ## operators -/

theorem unary (line : Line) : Gives t (g.unary line) := by
  refine .look fun _ => .ite (Lists.node ?_ rfl) (hg.wholeOperand _)
  refine Quiet.bind (Lists.many (P := Part) (Quiet.skip ?_) _).quiet fun _ =>
    (hg.wholeOperand _).one
  refine (quiet_mark _).orElse ((quiet_mark _).orElse ((quiet_mark _).orElse ?_))
  refine (quiet_mark _).orElse ((quiet_mark _).orElse ((quiet_mark _).orElse quiet_name))

theorem yielded (line : Line) : Gives t (g.yielded line) := by
  refine Lists.node ((quiet_word _).bind fun _ => .look fun _ => .ite ?_ ?_) rfl
  · exact (quiet_mark _).bind fun _ => (hg.expression _).one
  · exact (hg.expression _).one.when _

theorem wrapped (line : Line) : Lists t Part [] (g.wrapped line) :=
  quiet_name.bind fun _ => .look fun _ => .ite quiet_name.skip (hg.type _).one

theorem chainStep (line : Line) (n : Node) : Extends t n (·.getD n) (g.chainStep line n) := by
  refine .look fun _ => .ite (.pure rfl) (.look fun rest => .look fun w => ?_)
  refine .ite (.map (.wrap (hg.wrapped _) rfl)) (.ite (.map (.wrap (hg.wrapped _) rfl)) ?_)
  refine .ite (.map (.grow (quiet_name.bind fun _ => (hg.unary _).one) rfl)) ?_
  have hright : ∀ o : Text, Lists t Part [] (do
      let _ ← mark o
      Parser.one (g.expression line)) := fun o => (quiet_mark o).bind fun _ => (hg.expression _).one
  split
  · exact .map (.grow (hright _) rfl)
  · split
    · exact .map (.grow ((quiet_mark _).bind fun _ => (hg.unary _).one) rfl)
    · split
      · exact .ite (.pure rfl) (.map (.grow (hright _) rfl))
      · refine .ite (.map (.grow ?_ rfl)) (.pure rfl)
        refine (quiet_mark _).bind fun _ => (hg.expression _).bind fun a => ?_
        exact (quiet_mark _).bind fun _ => (hg.expression _).bind fun b => .pure rfl
      · exact .pure rfl

/-- **An expression is one node.** -/
theorem fullExpression (line : Line) : Gives t (g.fullExpression line) := by
  refine .look fun _ => .ite (hg.yielded _) ?_
  exact (hg.unary line).extend fun _ => .loop fun m => hg.chainStep line m

end Rules.Sound

end StorySuite.Grammar
