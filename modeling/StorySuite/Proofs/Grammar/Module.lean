import StorySuite.Proofs.Grammar.Statement
import StorySuite.Module.Basic

/-!
# What is read of a whole module

The rules for every depth give one node each, so the statements of a module, and the errors
between them, stand in a row under its root.

* `sound_rules`           **every rule gives one node, however deep a text is nested**;
* `At.giveUp`             the error that is left of a statement;
* `Stacks.pushError`      an error that joins the error in front of it;
* `Stacks.statements`     what is read statement after statement;
* `Module.regular_read`   **the tree of every text is regular**;
* `Module.exportForm_read`  the forms of its exports are told apart.
-/

namespace StorySuite.Grammar

open Grammar.Parser

variable {t : Text} {g : Rules}

/-- **Every rule gives one node**, however deep a text is nested. -/
theorem sound_rules (elements : Bool) (n : Nat) : (rules elements n).Sound t := by
  induction n with
  | zero => exact ⟨fun _ => .fail, fun _ => .fail, .fail, fun _ => .fail, .fail⟩
  | succ n ih =>
    exact ⟨ih.fullExpression, ih.wholeOperand, ih.wholeElement, ih.fullType, ih.wholeStatement⟩

/-! ## places further on -/

namespace Reader

theorem goTo_go {n k : Nat} {r : Reader} (h : r.At t) (hk : r.rest.length < k) :
    (goTo.go n k r).At t ∧ r.offset ≤ (goTo.go n k r).offset ∧
      (goTo.go n k r).comments = r.comments ∧ min n t.size ≤ (goTo.go n k r).offset := by
  induction k generalizing r with
  | zero => omega
  | succ k ih =>
    rw [goTo.go]
    split
    · next hmore =>
      obtain ⟨-, hrest⟩ := Bool.and_eq_true_iff.mp hmore
      have hlt : (r.advance 1).rest.length < k := by
        rw [advance_eq]
        show (List.drop 1 r.rest).length < k
        cases hr : r.rest with
        | nil =>
          rw [hr] at hrest
          cases hrest
        | cons c w =>
          rw [hr] at hk
          exact Nat.lt_of_succ_lt_succ hk
      obtain ⟨h1, h2, h3, h4⟩ := ih (h.advance 1) hlt
      exact ⟨h1, Nat.le_trans (offset_le_advance 1 r) h2, h3.trans (advance_comments 1 r), h4⟩
    · next hstop =>
      refine ⟨h, Nat.le_refl _, rfl, ?_⟩
      by_cases hn : r.offset < n
      · have hrest : r.rest = [] := by
          cases hr : r.rest with
          | nil => rfl
          | cons c w => simp [hn, hr] at hstop
        obtain ⟨s, hs, hsize⟩ := h.text
        rw [hrest, List.append_nil] at hs
        rw [hs, hsize]
        exact Nat.min_le_right _ _
      · exact Nat.le_trans (Nat.min_le_left _ _) (Nat.not_lt.mp hn)

/-- the reader at a byte further on, or at the end of the text -/
theorem At.goTo {r : Reader} (h : r.At t) (n : Nat) :
    (r.goTo n).At t ∧ r.offset ≤ (r.goTo n).offset ∧ (r.goTo n).comments = r.comments ∧
      min n t.size ≤ (r.goTo n).offset := goTo_go h h.limit

end Reader

/-! ## statements that stop -/

/-- an error without parts -/
theorem regular_error {a b : Nat} (ha : t.isBoundary a = true) (hb : t.isBoundary b = true)
    (hab : a ≤ b) : (Node.mk .error .part ⟨a, b⟩ []).Regular t :=
  .intro ⟨Node.suits_of_isOrdinary rfl _ _ _, hab, ha, hb⟩
    fun _ hc => absurd hc List.not_mem_nil

theorem lists_leftOut (stop : Nat) : Lists t Part [] (brokenVariables.leftOut stop) := by
  intro r hr
  obtain ⟨cs, hcs⟩ := hr.settles
  obtain ⟨hu, hle, hcomments, -⟩ := hcs.stands.goTo stop
  have hread : Reads t r { r.settle.goTo stop with last := (r.settle.goTo stop).offset } cs :=
    .of_settles hcs hu.ended hle hcomments
  have hreg := regular_error hcs.stands.offset_boundary hu.offset_boundary hle
  have hgiven : Given t r (Rules.misfit r.settle.offset (r.settle.goTo stop).offset)
      { r.settle.goTo stop with last := (r.settle.goTo stop).offset } :=
    ⟨cs, hread.snoc hreg hcs.row nofun (Nat.le_refl _), hcs.nodesOf_eq, part_of_isOrdinary rfl _ _⟩
  exact hgiven.yielded

theorem gives_brokenVariables (hg : g.Sound t) {k : Kind} (hk : k.isOrdinary = true) (stop : Nat) :
    Gives t (brokenVariables g k stop) := by
  refine Lists.node (quiet_name.bind fun _ => ?_) hk
  refine .loop_bind List.reverse rfl (fun acc => ?_) fun acc => ?_
  · have hone : Yields t Part (fun (o : Option Node) ns => o.toList = ns) [] (optional (do
        let n ← g.declarator .variableDeclarator
        let _ ← mark ","
        return n)) := by
      refine .orElse (.map ?_) (.pure rfl)
      exact (hg.declarator rfl).bind fun n => (quiet_mark _).bind fun _ => .pure rfl
    refine hone.bind fun o ns h => h ▸ ?_
    cases o with
    | none => exact .pure (by simp)
    | some n => exact .pure (by simp)
  · have hlast : Lists t Part [] (one <| node .variableDeclarator do
        let n ← g.target
        let ty ← Parser.when (·.sees ":") (g.annotation .type)
        return n.withRole .name :: ty) := by
      refine Gives.one (Lists.node_plain (hg.target.bind_role .name fun n => ?_) rfl)
      exact ((hg.annotation _).when _).plain.bind fun ty => .pure rfl
    refine hlast.perhaps.bind fun last => (lists_leftOut stop).bind fun dropped => ?_
    exact (quiet_mark _).bind fun _ => .pure (by simp)

theorem gives_brokenDeclaration (hg : g.Sound t) (stop : Nat) :
    Gives t (brokenDeclaration g stop) := by
  have hplain : Gives t (brokenDeclaration.plain g stop) := by
    refine .look_at fun r => ?_
    split
    · next k hk => exact gives_brokenVariables hg (isOrdinary_declarationAt? r _ hk) stop
    · exact .fail
  refine .look fun _ => .ite (.exportStatement ?_) hplain
  have hparts : Lists t Plain [] (do
      let _ ← name
      let d ← brokenDeclaration.plain g stop
      return [d.withRole .declaration]) :=
    quiet_name.bind fun _ => hplain.bind_role .declaration fun d => .pure rfl
  exact hparts.exported.mono (fun _ h => h) fun l ns h => ⟨h.1, [], ns, rfl, nofun, h.2⟩

/-- **The error that is left of a statement**, which reaches up to where reading goes on. -/
theorem Reader.At.giveUp {s : Reader} (hs : s.At t) {h : Halt} (hh : h.In t) :
    Given t s (giveUp s h).1 (giveUp s h).2 ∧ (giveUp s h).1.kind = .error := by
  obtain ⟨cs, hcs⟩ := hs.settles
  unfold Grammar.giveUp
  dsimp only
  split
  · next hlt =>
    obtain ⟨hu, -, hcomments, hmin⟩ := hcs.stands.goTo h.offset
    have hle : h.last ≤ (s.settle.goTo h.offset).offset :=
      Nat.le_trans (Nat.le_min.mpr ⟨hh.1, Text.le_size hh.2⟩) hmin
    have hread : Reads t s { s.settle.goTo h.offset with last := h.last } cs :=
      .of_settles hcs (hu.withLast hle hh.2) (Nat.le_of_lt hlt) hcomments
    have hreg := regular_error hcs.stands.offset_boundary hh.2 (Nat.le_of_lt hlt)
    exact ⟨⟨cs, hread.snoc hreg hcs.row nofun (Nat.le_refl _), hcs.nodesOf_eq,
      part_of_isOrdinary rfl _ _⟩, rfl⟩
  · -- the reader stands at the token already
    obtain ⟨n, hn⟩ : ∃ n, s.settle.afterToken = s.settle.advance n := by
      unfold Reader.afterToken
      rw [(Reader.still_settle hs).settle_eq]
      dsimp only
      split
      · exact ⟨_, rfl⟩
      · exact ⟨_, rfl⟩
    rw [hn]
    have hu := hcs.stands.advance n
    have hle := Reader.offset_le_advance n s.settle
    have hread : Reads t s { s.settle.advance n with last := (s.settle.advance n).offset } cs :=
      .of_settles hcs hu.ended hle (Reader.advance_comments _ _)
    have hreg := regular_error hcs.stands.offset_boundary hu.offset_boundary hle
    exact ⟨⟨cs, hread.snoc hreg hcs.row nofun (Nat.le_refl _), hcs.nodesOf_eq,
      part_of_isOrdinary rfl _ _⟩, rfl⟩

/-! ## statement after statement -/

/-- the nodes in `acc`, the latest first, are what is read from the start of the text to `r` -/
def Stacks (t : Text) (acc : List Node) (r : Reader) : Prop :=
  ∃ ws, Reads t (Reader.start t) r ws ∧ nodesOf ws = acc.reverse

/-- the nodes `ns` and the comments `ds` stand in a row in the text -/
def Covered (t : Text) (ns ds : List Node) : Prop :=
  ∃ ws, Node.Row 0 t.size ws ∧ nodesOf ws = ns ∧ commentsOf ws = ds ∧ ∀ n ∈ ws, n.Regular t

theorem takeWhile_reverse {p : Node → Bool} {xs ys : List Node} (hx : ∀ x ∈ xs, p x = true)
    (hy : ∀ y ∈ ys, p y = false) :
    (xs.reverse ++ ys.reverse).takeWhile p = xs.reverse ∧
      (xs.reverse ++ ys.reverse).dropWhile p = ys.reverse := by
  have hx' : ∀ x ∈ xs.reverse, p x = true := fun x h => hx x (List.mem_reverse.mp h)
  rw [List.takeWhile_append_of_pos hx', List.dropWhile_append_of_pos hx']
  cases hys : ys.reverse with
  | nil => exact ⟨List.append_nil _, rfl⟩
  | cons y ys' =>
    have hyp : p y = false := hy y (List.mem_reverse.mp (hys ▸ List.mem_cons_self))
    rw [List.takeWhile_cons, List.dropWhile_cons, hyp]
    exact ⟨List.append_nil _, rfl⟩

section joined

variable {r u : Reader} {us ds : List Node} {c : Role} {sp : Span} {cs : List Node} {e : Node}

/-- the comments around two errors -/
theorem commentsOf_joined (hds : nodesOf ds = []) (he : e.kind ≠ .comment) :
    commentsOf (us ++ .mk .error c sp cs :: (ds ++ [e])) = commentsOf us ++ ds := by
  have hcons : us ++ Node.mk .error c sp cs :: (ds ++ [e]) =
      us ++ ([Node.mk .error c sp cs] ++ (ds ++ [e])) := rfl
  have hfirst : commentsOf [Node.mk .error c sp cs] = [] := commentsOf_singleton nofun
  rw [hcons, commentsOf_append, commentsOf_append, commentsOf_append, hfirst, eq_commentsOf hds,
    commentsOf_singleton he, List.append_nil, List.nil_append]

variable (h : Reads t r u (us ++ .mk .error c sp cs :: (ds ++ [e])))
include h

theorem Reads.row_joined : Node.Row r.offset sp.start us ∧ sp.start ≤ sp.stop ∧
    Node.Row sp.stop e.start ds ∧ e.start ≤ e.stop ∧ e.stop ≤ u.last := by
  rcases h.row with hnil | hrow
  · exact absurd hnil (List.append_ne_nil_of_right_ne_nil _ (List.cons_ne_nil _ _))
  · obtain ⟨h1, h2, h3⟩ := hrow.split
    exact ⟨h1, h2, Node.Row.snoc_iff.mp h3⟩

/-- two errors and the comments between them, as one error -/
theorem Reads.joined :
    Reads t r { u with comments := (commentsOf us).reverse ++ r.comments }
      (us ++ [.mk .error c ⟨sp.start, e.stop⟩ (cs ++ ds)]) := by
  obtain ⟨hfront, hle, hbetween, hestart, hestop⟩ := h.row_joined
  have hus : ∀ n ∈ us, n ∈ us ++ Node.mk .error c sp cs :: (ds ++ [e]) := fun n hn =>
    List.mem_append_left _ hn
  have hbehind : ∀ n ∈ Node.mk .error c sp cs :: (ds ++ [e]),
      n ∈ us ++ Node.mk .error c sp cs :: (ds ++ [e]) := fun n hn => List.mem_append_right _ hn
  have he := h.regular _ (hbehind _ List.mem_cons_self)
  have he' := h.regular e (hbehind e (List.mem_cons_of_mem _
    (List.mem_append_right _ List.mem_cons_self)))
  have hjoined : (Node.mk .error c ⟨sp.start, e.stop⟩ (cs ++ ds)).Regular t := by
    refine .intro ⟨Node.suits_of_isOrdinary rfl _ _ _, ?_, he.placed.start_boundary,
      he'.placed.stop_boundary⟩ fun d hd => ?_
    · exact (Node.Row.append he.placed.row hbetween).mono (Nat.le_refl _) hestart
    · rcases List.mem_append.mp hd with hd | hd
      · exact he.child hd
      · exact h.regular d (hbehind d (List.mem_cons_of_mem _ (List.mem_append_left _ hd)))
  have hlast : sp.start ≤ u.last := by
    have := hbetween.le
    omega
  have hread : Reads t r { u with comments := (commentsOf us).reverse ++ r.comments } us :=
    ⟨h.stands.withComments _, h.offset_le, h.last_le, rfl,
      Or.inr (hfront.mono (Nat.le_refl _) hlast),
      fun n hn => h.regular n (hus n hn), fun n hn => h.comment n (hus n hn)⟩
  exact hread.snoc hjoined hfront nofun hestop

end joined

/-- **An error joins the error in front of it**, and takes up the comments between the two. -/
theorem Stacks.pushError {acc ws cs : List Node} {e : Node} {u : Reader}
    (h : Reads t (Reader.start t) u (ws ++ (cs ++ [e]))) (hacc : nodesOf ws = acc.reverse)
    (hcs : nodesOf cs = []) (he : Part e) :
    Stacks t (pushError e acc u.comments).1
      { u with comments := (pushError e acc u.comments).2 } := by
  unfold Grammar.pushError
  split
  · next c sp cs₀ acc =>
    rw [List.reverse_cons] at hacc
    obtain ⟨us, ds, rfl, hus, hds⟩ := exists_last hacc
    -- between the two errors there are comments alone
    have hnil : nodesOf (ds ++ cs) = [] := by
      rw [nodesOf_append, hds, hcs]
      rfl
    have hall : us ++ Node.mk .error c sp cs₀ :: ds ++ (cs ++ [e]) =
        us ++ Node.mk .error c sp cs₀ :: ((ds ++ cs) ++ [e]) := by
      simp only [List.append_assoc, List.cons_append]
    rw [hall] at h
    obtain ⟨hfront, hle, hbetween, -⟩ := h.row_joined
    have hcomments : u.comments = (ds ++ cs).reverse ++ (commentsOf us).reverse := by
      rw [h.comments_eq, commentsOf_joined hnil he.1.1, List.reverse_append]
      exact List.append_nil _
    obtain ⟨htake, hdrop⟩ := @takeWhile_reverse (fun d => decide (sp.stop ≤ d.start))
      (ds ++ cs) (commentsOf us)
      (fun d hd => decide_eq_true (hbetween.mem hd).1) fun d hd => by
        obtain ⟨hd, hk⟩ := mem_commentsOf.mp hd
        have hpos := (h.regular d (List.mem_append_left _ hd)).placed.comment hk
        have hstop := (hfront.mem hd).2.2
        exact decide_eq_false (by omega)
    dsimp only
    rw [hcomments, htake, hdrop, List.reverse_reverse]
    have hjoined := h.joined
    rw [show (Reader.start t).comments = [] from rfl, List.append_nil] at hjoined
    refine ⟨_, hjoined, ?_⟩
    rw [nodesOf_append, hus, List.reverse_cons]
    rfl
  · refine ⟨_, h, ?_⟩
    rw [nodesOf_append, hacc, Reads.nodesOf_snoc hcs he.1.1, List.reverse_cons]

/-- one node more, behind the comments in front of it -/
theorem Stacks.push {acc cs : List Node} {r s u : Reader} {n : Node} (h : Stacks t acc r)
    (hs : Reader.Settles t r s cs) (hn : Given t s n u) :
    ∃ ws ds, Reads t (Reader.start t) u (ws ++ (ds ++ [n])) ∧ nodesOf ws = acc.reverse ∧
      nodesOf ds = [] := by
  obtain ⟨ws, hws, hacc⟩ := h
  obtain ⟨ds, hds, hnil, -⟩ := hn
  obtain ⟨hrow, hle, hstop⟩ := hds.row_snoc
  have hsu : s.offset ≤ u.last := Nat.le_trans hrow.le (Nat.le_trans hle hstop)
  refine ⟨ws, cs ++ ds, ?_, hacc, ?_⟩
  · rw [List.append_assoc cs]
    exact hws.trans (.after_settles hs hds hsu)
  · rw [nodesOf_append, hs.nodesOf_eq, hnil]
    rfl

/-- what is read before the text ends -/
theorem Stacks.covered {acc cs : List Node} {r s : Reader} (h : Stacks t acc r)
    (hs : Reader.Settles t r s cs) : Covered t acc.reverse s.comments.reverse := by
  obtain ⟨ws, hws, hacc⟩ := h
  have hsize : s.offset ≤ t.size := hs.stands.offset_le_size
  refine ⟨ws ++ cs, ?_, ?_, ?_, ?_⟩
  · rcases hws.row with rfl | hrow
    · exact hs.row.mono (Nat.zero_le _) hsize
    · exact (hrow.append (hs.row.mono hws.stands.last_le (Nat.le_refl _))).mono (Nat.le_refl _) hsize
  · rw [nodesOf_append, hs.nodesOf_eq, List.append_nil]
    exact hacc
  · rw [hs.comments_eq, hws.comments_eq, List.reverse_append, List.reverse_append,
      List.reverse_reverse, List.reverse_reverse, commentsOf_append, hs.commentsOf_eq]
    rfl
  · intro n hn
    rcases List.mem_append.mp hn with hn | hn
    · exact hws.regular n hn
    · exact (hs.comment n hn).1

/-- **Statements and errors stand in a row**, however the reading of each of them ends. -/
theorem Stacks.statements (hg : g.Sound t) {n : Nat} {acc : List Node} {r : Reader}
    (h : Stacks t acc r) :
    Covered t (statements g n acc r).1 (statements g n acc r).2 := by
  induction n generalizing acc r with
  | zero =>
    have hr : r.At t := h.choose_spec.1.stands
    exact h.covered (.refl hr)
  | succ n ih =>
    have hr : r.At t := h.choose_spec.1.stands
    obtain ⟨cs, hcs⟩ := hr.settles
    have hnode : ∀ {m : Node} {u : Reader}, Given t r.settle m u →
        Covered t (Grammar.statements g n (m :: acc) u).1
          (Grammar.statements g n (m :: acc) u).2 := by
      intro m u hm
      obtain ⟨ws, ds, hread, hacc, hnil⟩ := h.push hcs hm
      obtain ⟨-, -, -, hpart⟩ := hm
      refine ih ⟨_, hread, ?_⟩
      rw [nodesOf_append, hacc, Reads.nodesOf_snoc hnil hpart.1.1, List.reverse_cons]
    rw [Grammar.statements]
    dsimp only
    split
    · exact h.covered hcs
    · have hwhole := hg.wholeStatement r.settle hcs.stands
      split
      · next m u hm =>
        rw [hm] at hwhole
        exact hnode hwhole
      · next k hk =>
        rw [hk] at hwhole
        have hbroken := gives_brokenDeclaration hg k.offset r.settle hcs.stands
        split
        · next m u hm =>
          split at hm
          · rw [hm] at hbroken
            exact hnode hbroken
          · cases hm
        · obtain ⟨he, -⟩ := hcs.stands.giveUp hwhole
          obtain ⟨ws, ds, hread, hacc, hnil⟩ := h.push hcs he
          obtain ⟨-, -, -, hpart⟩ := he
          exact ih (.pushError hread hacc hnil hpart)

/-- what the first line of a script is made of -/
theorem stacks_scriptLine (t : Text) :
    Stacks t (scriptLine (Reader.start t)).1 (scriptLine (Reader.start t)).2 := by
  have hs := Reader.At.start t
  unfold scriptLine
  split
  · have hu := hs.advance ((Reader.start t).rest.takeWhile fun c => c != '\n').length
    have hread : Reads t (Reader.start t) _ [] :=
      .of_settles (.refl hs) hu.ended (Nat.zero_le _) (Reader.advance_comments _ _)
    refine ⟨_, hread.snoc (n := .mk .construct .part ⟨0, _⟩ []) ?_ (Nat.le_refl _) nofun
      (Nat.le_refl _), rfl⟩
    exact .intro ⟨Node.suits_of_isOrdinary rfl _ _ _, Nat.zero_le _, Text.isBoundary_zero t,
      hu.offset_boundary⟩ fun _ hc => absurd hc List.not_mem_nil
  · exact ⟨[], .refl hs, rfl⟩

/-- nodes and comments that stand in a row are woven into one -/
theorem Covered.exists_row {ns ds : List Node} (h : Covered t ns ds) :
    Node.Row 0 t.size (weave ns ds) ∧ ∀ n ∈ weave ns ds, n.Regular t := by
  obtain ⟨ws, hrow, rfl, rfl, hreg⟩ := h
  have hpos : ∀ d ∈ commentsOf ws, d.start < d.stop := by
    intro d hd
    obtain ⟨hd, hk⟩ := mem_commentsOf.mp hd
    exact (hreg d hd).placed.comment hk
  rw [weave_row hrow hpos]
  exact ⟨hrow, hreg⟩

/-- the last node may be left out -/
theorem Covered.dropLast {ns ds : List Node} (h : Covered t ns ds) : Covered t ns.dropLast ds := by
  obtain ⟨ws, hrow, hns, hds, hreg⟩ := h
  rcases List.eq_nil_or_concat ns with rfl | ⟨ns, n, rfl⟩
  · exact ⟨ws, hrow, hns, hds, hreg⟩
  · rw [List.concat_eq_append] at hns ⊢
    rw [List.dropLast_concat]
    obtain ⟨us, cs, rfl, hus, hcs⟩ := exists_last hns
    have hn : n.kind ≠ .comment := by
      have hmem : n ∈ nodesOf (us ++ n :: cs) := hns ▸ List.mem_append_right _ List.mem_cons_self
      exact (mem_nodesOf.mp hmem).2
    have hsub : (us ++ cs).Sublist (us ++ n :: cs) :=
      (List.sublist_cons_self n cs).append_left us
    refine ⟨us ++ cs, hrow.sublist hsub, ?_, ?_, fun c hc => hreg c (hsub.mem hc)⟩
    · rw [nodesOf_append, hus, hcs, List.append_nil]
    · have hsplit : us ++ n :: cs = us ++ ([n] ++ cs) := rfl
      rw [hsplit, commentsOf_append, commentsOf_append, commentsOf_singleton hn,
        List.nil_append] at hds
      rw [commentsOf_append, hds]

/-- **What is read of a text stands in a row** under its root, which is a program or an error. -/
theorem covered_parseModule (elements : Bool) (t : Text) :
    ∃ k ws, (k = .program ∨ k = .error) ∧
      parseModule elements t = .mk k .part ⟨0, t.size⟩ ws ∧ Node.Row 0 t.size ws ∧
      ∀ n ∈ ws, n.Regular t := by
  have h := (stacks_scriptLine t).statements (sound_rules elements (t.length + 2))
    (n := (scriptLine (Reader.start t)).2.limit)
  unfold parseModule rootOf
  dsimp only
  split
  · obtain ⟨hrow, hreg⟩ := h.dropLast.exists_row
    exact ⟨.error, _, Or.inr rfl, rfl, hrow, hreg⟩
  · obtain ⟨hrow, hreg⟩ := h.exists_row
    exact ⟨.program, _, Or.inl rfl, rfl, hrow, hreg⟩

end StorySuite.Grammar

namespace StorySuite

/-- **The tree of every text is regular**, in either dialect and with or without errors. -/
theorem Module.regular_read (id text : Text) : (Module.read id text).Regular := by
  obtain ⟨k, ws, hk, htree, hrow, hreg⟩ :=
    Grammar.covered_parseModule (Dialect.ofId id == .elements) text
  have hread : (Module.read id text).tree = .mk k .part ⟨0, Text.size text⟩ ws := htree
  have hbound : Text.isBoundary text 0 = true := Text.isBoundary_zero text
  refine Module.regular_of ?_ ?_ ?_ ?_ ?_ ?_
  all_goals rw [hread]
  · rcases hk with rfl | rfl <;> exact nofun
  · rcases hk with rfl | rfl <;> exact nofun
  · exact hrow
  · exact hbound
  · exact Text.isBoundary_size text
  · exact hreg

/-- **The forms of an export are told apart** by its parts. -/
theorem Module.exportForm_read {id text : Text} {n : Node}
    (hn : n ∈ (Module.read id text).tree.children) (hk : n.kind = .exportStatement) :
    Node.ExportForm n.children := by
  obtain ⟨k, ws, -, htree, -, hreg⟩ :=
    Grammar.covered_parseModule (Dialect.ofId id == .elements) text
  have hread : (Module.read id text).tree = .mk k .part ⟨0, Text.size text⟩ ws := htree
  rw [hread] at hn
  exact (hreg n hn).placed.form hk

end StorySuite
