import StorySuite.Proofs.Grammar.Gives
import StorySuite.Grammar.Element

/-!
# What the shared rules read

`Rules.Sound t g` says that every rule of `g` gives one node.  Each construct made of such rules
is then read part by part, and gives the list of its parts or one node around them.

* `Lists.many`, `Lists.sepBy`, `Lists.sepUntil`   repetitions;
* `Gives.template`                                a template around what stands in it;
* `Rules.Sound.parameters`, `Rules.Sound.block`   the constructs that others share;
* `Rules.Sound.wholeElement`                      elements.
-/

namespace StorySuite.Grammar

open Grammar.Parser

variable {t : Text} {α β : Type} {P : Node → Prop} {R : β → List Node → Prop} {front : List Node}

/-! ## repetitions -/

/-- a loop that adds to a list, of which `v` is what was read so far -/
theorem Yields.loop_bind {step : α → Parser (Option α)} {a : α} {f : α → Parser β}
    (v : α → List Node) (hstart : v a = front)
    (hstep : ∀ a, Yields t P (fun o ms => v (o.getD a) = ms) (v a) (step a))
    (hf : ∀ a, Yields t P R (v a) (f a)) : Yields t P R front (Parser.loop step a >>= f) :=
  have hloop : Yields t P (fun a ms => v a = ms) front (Parser.loop step a) :=
    .loop hstart fun a _ h => h ▸ hstep a
  hloop.seq fun a _ h => h ▸ hf a

/-- words that are read as long as they are seen -/
theorem quiet_words (more : Reader → Bool) :
    Quiet t (loop (fun (_ : Unit) => do
      if ← look more then
        let _ ← name
        return some ()
      else return none) ()) :=
  quiet_loop (fun _ => .look fun _ => .ite (quiet_name.bind fun _ => .pure rfl) (.pure rfl)) ()

namespace Lists

variable {p : Parser (List Node)}

theorem many (hp : Lists t P [] p) (more : Reader → Bool) : Lists t P [] (many more p) := by
  refine .loop_bind (fun acc => acc.reverse.flatten) rfl (fun acc => ?_) fun acc => .pure rfl
  refine .look fun b => .ite ?_ (.pure rfl)
  exact hp.bind fun l => .pure (by simp)

theorem sepBy (hp : Lists t P [] p) {sep : Parser Span} (hsep : Quiet t sep) :
    Lists t P [] (sepBy p sep) := by
  refine hp.bind fun first => ?_
  refine .loop_bind (fun acc => acc.reverse.flatten) (by simp) (fun acc => ?_) fun acc => .pure rfl
  refine hsep.optional.bind fun o => ?_
  cases o with
  | none => exact .pure rfl
  | some _ => exact hp.bind fun l => .pure (by simp)

theorem sepUntil (hp : Lists t P [] p) {sep : Parser Span} (hsep : Quiet t sep) (close : Text) :
    Lists t P [] (sepUntil p sep close) := by
  refine .loop_bind (fun acc => acc.reverse.flatten) rfl (fun acc => ?_) fun acc => ?_
  · refine .look fun b => .ite (.pure rfl) ?_
    refine hp.bind fun l => .look fun b => .ite (.pure (by simp)) ?_
    exact hsep.bind fun _ => .pure (by simp)
  · exact (quiet_mark close).bind fun _ => .pure rfl

theorem «when» (hp : Lists t P [] p) (b : Reader → Bool) : Lists t P [] (Parser.when b p) :=
  .look fun _ => .ite hp (.pure rfl)

theorem perhaps (hp : Lists t P [] p) : Lists t P [] (perhaps p) := by
  intro r hr
  have h := hp r hr
  unfold Parser.perhaps
  cases hpr : p r with
  | done a s =>
    rw [hpr] at h
    exact h
  | halt k => exact Yields.pure rfl r hr

end Lists

theorem Quiet.skip {p : Parser Span} (hp : Quiet t p) : Lists t P [] (skip p) :=
  hp.bind fun _ => .pure rfl

theorem Gives.template {inner : Parser Node} (hi : Gives t inner) : Gives t (template inner) := by
  refine Lists.node ((quiet_mark _).bind fun _ => ?_) rfl
  refine .loop_bind List.reverse rfl (fun acc => ?_) fun acc => ?_
  · refine .look fun rest => ?_
    split
    · exact .pure rfl
    · refine (quiet_mark _).bind fun _ => hi.bind fun n => ?_
      exact (quiet_mark _).bind fun _ => .pure (by simp)
    · exact (quiet_chars _).bind fun _ => .pure rfl
    · exact .fail
    · exact (quiet_chars _).bind fun _ => .pure rfl
  · exact (quiet_chars _).bind fun _ => .pure rfl

/-! ## the rules inside of a construct -/

/-- every rule gives one node -/
structure Rules.Sound (t : Text) (g : Rules) : Prop where
  expression : ∀ line, Gives t (g.expression line)
  operand : ∀ line, Gives t (g.operand line)
  element : Gives t g.element
  type : ∀ line, Gives t (g.type line)
  statement : Gives t g.statement

namespace Rules.Sound

variable {g : Rules} (hg : g.Sound t)
include hg

theorem target : Gives t g.target := by
  refine .look fun b => .ite ?_ ((spans_token _).leaf rfl)
  exact (hg.operand _).extend fun n => .relabel rfl

theorem annotation (line : Line) : Lists t Part [] (g.annotation line) :=
  (quiet_mark _).bind fun _ => (hg.type line).one

theorem typeParameter : Lists t Part [] g.typeParameter := by
  refine (quiet_words _).bind fun _ => ?_
  refine ((spans_token _).leaf rfl).bind fun n => ?_
  refine (Lists.when (quiet_name.bind fun _ => (hg.type _).one) _).bind fun bound => ?_
  refine (Lists.when ((quiet_mark _).bind fun _ => (hg.type _).one) _).bind fun initial => ?_
  exact .pure (by simp)

theorem typeParameters : Lists t Part [] g.typeParameters :=
  (quiet_mark _).bind fun _ => hg.typeParameter.sepUntil (quiet_mark _) _

theorem typeArguments : Lists t Part [] g.typeArguments :=
  (quiet_markNot _ _).bind fun _ => (hg.type _).one.sepUntil (quiet_mark _) _

theorem decorator : Lists t Part [] g.decorator :=
  (quiet_mark _).bind fun _ => (hg.operand _).one

theorem parameter : Lists t Part [] g.parameter := by
  refine (hg.decorator.many _).bind fun ds => ?_
  refine (quiet_words _).bind fun _ => ?_
  refine (quiet_mark _).optional.bind fun _ => ?_
  refine hg.target.bind fun n => ?_
  refine (quiet_mark _).optional.bind fun _ => ?_
  refine ((hg.annotation _).when _).bind fun ty => ?_
  refine (Lists.when ((quiet_mark _).bind fun _ => (hg.expression _).one) _).bind fun v => ?_
  exact .pure (by simp)

theorem parameters : Lists t Part [] g.parameters :=
  (quiet_mark _).bind fun _ => hg.parameter.sepUntil (quiet_mark _) _

theorem block : Gives t g.block := by
  refine Lists.node ((quiet_mark _).bind fun _ => ?_) rfl
  refine (hg.statement.one.many _).bind fun ns => ?_
  exact (quiet_mark _).bind fun _ => (quiet_maybeEnded _).bind fun _ => .pure rfl

/-! ### elements -/

omit hg in
theorem tagName : Quiet t tagName := by
  refine (quiet_token _).bind fun _ => quiet_loop (fun _ => .look fun b => .ite ?_ (.pure rfl)) ()
  refine Quiet.bind ((quiet_mark _).orElse (quiet_mark _)) fun _ => ?_
  exact (quiet_token _).bind fun _ => .pure rfl

theorem braced : Lists t Part [] g.braced := by
  refine (quiet_mark _).bind fun _ => (quiet_mark _).optional.bind fun _ => ?_
  refine (((hg.expression _).one.sepBy (quiet_mark _)).when _).bind fun ns => ?_
  exact (quiet_mark _).bind fun _ => .pure rfl

theorem attributeOf : Lists t Part [] g.attributeOf := by
  refine .look fun b => .ite hg.braced ?_
  refine tagName.bind fun _ => .look fun b => .ite ?_ (.pure rfl)
  refine (quiet_mark _).bind fun _ => .look fun rest => ?_
  split
  · exact hg.braced
  · exact hg.element.one
  · exact (quiet_token _).skip

theorem content : Lists t Part [] g.content := by
  refine .loop_bind (fun acc => acc.reverse.flatten) rfl (fun acc => ?_) fun acc => .pure rfl
  refine .look fun rest => ?_
  split
  · exact .fail
  · exact .pure rfl
  · exact hg.element.bind fun n => .pure (by simp)
  · exact hg.braced.bind fun l => .pure (by simp)
  · exact (quiet_chars _).bind fun _ => .pure rfl
  · exact .fail
  · exact .fail
  · exact (quiet_chars _).bind fun _ => .pure rfl

theorem closed : Lists t Part [] g.closed := by
  refine (quiet_mark _).bind fun _ => hg.content.bind fun ns => ?_
  refine (quiet_chars _).bind fun _ => .look fun b => .ite ?_ ?_
  · exact (quiet_mark _).bind fun _ => .pure rfl
  · exact tagName.bind fun _ => (quiet_mark _).bind fun _ => .pure rfl

theorem wholeElement : Gives t g.wholeElement := by
  refine Lists.node ((quiet_mark _).bind fun _ => .look fun b => .ite hg.closed ?_) rfl
  refine tagName.bind fun _ => (hg.typeArguments.when _).bind fun ts => ?_
  refine (hg.attributeOf.many _).bind fun as => .look fun b => .ite ?_ ?_
  · exact (quiet_mark _).bind fun _ => (quiet_mark _).bind fun _ => .pure (by simp)
  · exact hg.closed.bind fun ns => .pure (by simp)

end Rules.Sound

end StorySuite.Grammar
