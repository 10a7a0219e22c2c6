import StorySuite.Proofs.Grammar.Rules
import StorySuite.Grammar.Type

/-!
# What the rules for types read

* `Rules.Sound.members`     the members of an object type;
* `Rules.Sound.simpleType`  types without operators;
* `Rules.Sound.fullType`    **types**, each one node.
-/

namespace StorySuite.Grammar

open Grammar.Parser

variable {t : Text} {g : Rules}

namespace Rules.Sound

variable (hg : g.Sound t)
include hg

/-! ## members -/

theorem memberKey : Lists t Part [] g.memberKey := by
  refine .look fun rest => ?_
  split
  · refine (quiet_mark _).bind fun _ => (hg.expression _).bind fun n => ?_
    exact (quiet_mark _).bind fun _ => .pure rfl
  · exact (quiet_token _).skip
  · exact (quiet_token _).skip
  · exact (quiet_mark _).bind fun _ => (quiet_chars _).skip
  · exact .ite (quiet_token _).skip quiet_name.skip
  · exact .fail

omit hg in
theorem memberEnd : Quiet t memberEnd := by
  refine .look fun b => .ite (.pure rfl) (.look fun c => .ite ?_ (quiet_semicolon _))
  exact (quiet_mark _).bind fun _ => .pure rfl

theorem memberTail : Lists t Part [] g.memberTail := by
  refine (quiet_markNot _ _).optional.bind fun _ => ?_
  refine (hg.typeParameters.when _).bind fun ts => (hg.parameters.when _).bind fun ps => ?_
  exact ((hg.annotation _).when _).bind fun ty => .pure (by simp)

theorem indexMember : Lists t Part [] g.indexMember := by
  refine Quiet.bind (Quiet.optional ((quiet_mark _).orElse (quiet_mark _))) fun _ => ?_
  refine (quiet_word _).optional.bind fun _ => (quiet_mark _).bind fun _ => ?_
  refine quiet_name.bind fun _ => ?_
  refine Lists.bind (.orElse (hg.annotation _) ?_) fun ns => ?_
  · refine (quiet_word _).bind fun _ => (hg.type _).bind fun n => ?_
    exact (Lists.when (quiet_name.bind fun _ => (hg.type _).one) _).bind fun u => .pure (by simp)
  · refine (quiet_mark _).bind fun _ => ?_
    refine Quiet.bind (Quiet.optional ((quiet_mark _).orElse (quiet_mark _))) fun _ => ?_
    refine (quiet_mark _).optional.bind fun _ => ?_
    exact ((hg.annotation _).when _).bind fun ty => .pure rfl

theorem member : Lists t Part [] g.member := by
  refine .look fun b => .ite ?_ ?_
  · exact Quiet.bind ((quiet_mark _).orElse (quiet_mark _)) fun _ => .pure rfl
  · refine Lists.bind (hg.indexMember.orElse ?_) fun ns => memberEnd.bind fun _ => .pure rfl
    refine (quiet_words _).bind fun _ => .look fun b => .ite ?_ (.look fun b => .ite ?_ ?_)
    · exact quiet_name.bind fun _ => hg.memberTail
    · exact hg.memberTail
    · exact hg.memberKey.bind fun k => hg.memberTail.bind fun ns => .pure rfl

theorem members : Lists t Part [] g.members := by
  refine (quiet_mark _).bind fun _ => (hg.member.many _).bind fun ns => ?_
  exact (quiet_mark _).bind fun _ => .pure rfl

/-! ## types without operators -/

theorem tupleElement : Lists t Part [] g.tupleElement := by
  refine (quiet_mark _).optional.bind fun _ => .orElse ?_ ?_
  · exact quiet_name.bind fun _ => (quiet_mark _).optional.bind fun _ => hg.annotation _
  · exact (hg.type _).bind fun n => (quiet_mark _).optional.bind fun _ => .pure rfl

theorem arrowResult (line : Line) : Lists t Part [] (g.arrowResult line) :=
  (quiet_mark _).bind fun _ => (hg.type _).one

theorem functionType (line : Line) : Lists t Part [] (g.functionType line) := by
  refine (hg.typeParameters.when _).bind fun ts => hg.parameters.bind fun ps => ?_
  exact (hg.arrowResult _).bind fun n => .pure rfl

theorem namedType (line : Line) : Lists t Part [] (g.namedType line) := by
  refine quiet_name.bind fun _ => ?_
  refine Quiet.bind (quiet_loop (fun _ => .look fun b => .ite ?_ (.pure rfl)) ()) fun _ =>
    hg.typeArguments.perhaps.when _
  refine (quiet_mark _).bind fun _ => (quiet_mark _).optional.bind fun _ => ?_
  exact quiet_name.bind fun _ => .pure rfl

theorem simpleType (line : Line) : Gives t (g.simpleType line) := by
  refine Lists.node (.look fun rest => ?_) rfl
  split
  · refine (hg.functionType _).orElse ?_
    refine (quiet_mark _).bind fun _ => (hg.type _).bind fun n => ?_
    exact (quiet_mark _).bind fun _ => .pure rfl
  · exact hg.functionType _
  · exact (quiet_mark _).bind fun _ => hg.tupleElement.sepUntil (quiet_mark _) _
  · exact hg.members
  · exact (quiet_token _).skip
  · exact (quiet_token _).skip
  · exact (Gives.template (hg.type _)).one
  · exact (quiet_mark _).bind fun _ => (quiet_token _).skip
  · refine .ite (quiet_token _).skip (.look fun w => .look fun after => ?_)
    refine .ite ?_ (.ite ?_ (.ite ?_ (.ite ?_ (.ite ?_ (.ite ?_ (.ite ?_ (hg.namedType _)))))))
    · refine (quiet_word _).optional.bind fun _ => (quiet_word _).bind fun _ => ?_
      exact hg.functionType _
    · exact quiet_name.bind fun _ => (hg.type _).bind fun n => .pure rfl
    · refine quiet_name.bind fun _ => quiet_name.bind fun _ => ?_
      exact Lists.when (quiet_name.bind fun _ => (hg.type _).one) _
    · refine quiet_name.bind fun _ => .look fun b => ?_
      exact .ite (hg.type _).one (hg.namedType _)
    · refine quiet_name.bind fun _ => (quiet_mark _).bind fun _ => (hg.type _).bind fun n => ?_
      have hwith : Lists t Part [] (do
          let _ ← mark ","
          one (g.expression .joined)) := (quiet_mark _).bind fun _ => (hg.expression _).one
      refine hwith.perhaps.quiet.bind fun _ => (quiet_mark _).bind fun _ => ?_
      refine (Lists.when ((quiet_mark _).bind fun _ => hg.namedType _) _).bind fun ns => ?_
      exact .pure rfl
    · refine quiet_name.bind fun _ => quiet_name.bind fun _ => ?_
      exact Lists.when (quiet_name.bind fun _ => (hg.type _).one) _
    · exact quiet_name.bind fun _ => quiet_name.bind fun _ => (hg.type _).one
  · exact .fail

/-! ## types -/

theorem postfixType (line : Line) : Gives t (g.postfixType line) := by
  refine (hg.simpleType line).extend fun n => .loop fun m => ?_
  refine .look fun b => .ite (.bind (.grow ?_ rfl) fun u => .pure rfl) (.pure rfl)
  refine (quiet_mark _).bind fun _ => ((hg.type _).one.when _).bind fun ns => ?_
  exact (quiet_mark _).bind fun _ => .pure rfl

theorem unionType_more (line : Line) (n : Node) : Extends t n id (unionType.more g line n) := by
  refine .loop fun m => .look fun b => .ite (.bind (.grow ?_ rfl) fun u => .pure rfl) (.pure rfl)
  exact Quiet.bind ((quiet_mark _).orElse (quiet_mark _)) fun _ => (hg.postfixType _).one

theorem unionType (line : Line) : Gives t (g.unionType line) := by
  refine .look fun b => .ite (Lists.node ?_ rfl) ?_
  · refine Quiet.bind ((quiet_mark _).orElse (quiet_mark _)) fun _ => ?_
    exact (hg.postfixType _).extend_one fun n => hg.unionType_more line n
  · exact (hg.postfixType _).extend fun n => hg.unionType_more line n

/-- **A type is one node.** -/
theorem fullType (line : Line) : Gives t (g.fullType line) := by
  refine (hg.unionType line).extend fun n => .look fun b => .ite ?_ (.pure rfl)
  refine .orElse (.grow ?_ rfl) (.pure rfl)
  refine quiet_name.bind fun _ => (hg.unionType _).bind fun u => (quiet_mark _).bind fun _ => ?_
  refine (hg.type _).bind fun a => (quiet_mark _).bind fun _ => (hg.type _).bind fun b => ?_
  exact .pure rfl

end Rules.Sound

end StorySuite.Grammar
