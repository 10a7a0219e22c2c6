import StorySuite.Proofs.Grammar.Yields

/-!
# Parsers of one node

A parser that gives a node has read that node and nothing else but comments in front of it, so what
is read next can be put behind it or made a part of it.

* `Gives t p`           `p` reads one node, with nothing but comments in front of it;
* `Extends t n v p`     `p` reads on behind the node `n` and makes it larger;
* `Gives.nodeOf`        **what a parser reads stands in a row inside of the node made of it**;
* `Extends.grow`        the same for a node whose first child is read already.
-/

namespace StorySuite.Grammar

open Grammar.Parser

variable {t : Text} {α β : Type} {P : Node → Prop} {R : β → List Node → Prop} {front : List Node}

/-- a node that is no comment and neither the keyword nor the clause of an export -/
def Plain (n : Node) : Prop :=
  n.kind ≠ .comment ∧ n.kind ≠ .defaultKeyword ∧ n.kind ≠ .exportClause

/-- such a node, as long as it plays no role and is no keyword -/
def Part (n : Node) : Prop := Plain n ∧ n.role = .part ∧ n.kind.isNamed = true

/-- from `r` over the node `n` to `s`, with nothing but comments in front of the node -/
def Given (t : Text) (r : Reader) (n : Node) (s : Reader) : Prop :=
  ∃ cs, Reads t r s (cs ++ [n]) ∧ nodesOf cs = [] ∧ Part n

/-- `p` reads one node, with nothing but comments in front of it -/
def Gives (t : Text) (p : Parser Node) : Prop :=
  ∀ r : Reader, r.At t → Ends t (Given t r) (p r)

theorem plain_of_isOrdinary {k : Kind} (hk : k.isOrdinary = true) (r : Role) (s : Span)
    (cs : List Node) : Plain (.mk k r s cs) := by
  refine ⟨?_, ?_, ?_⟩
  all_goals
    intro h
    cases h
    cases hk

theorem part_of_isOrdinary {k : Kind} (hk : k.isOrdinary = true) (s : Span) (cs : List Node) :
    Part (.mk k .part s cs) := by
  refine ⟨plain_of_isOrdinary hk .part s cs, rfl, ?_⟩
  show k.isNamed = true
  cases k with
  | defaultKeyword => cases hk
  | typeKeyword => cases hk
  | _ => rfl

theorem Plain.withRole {n : Node} (h : Plain n) (r : Role) : Plain (n.withRole r) := by
  cases n
  exact h

/-- a node behind the comments in front of it -/
theorem Reads.snoc {r s : Reader} {cs : List Node} {n : Node} (h : Reads t r s cs)
    (hn : n.Regular t) (hrow : Node.Row r.offset n.start cs) (hk : n.kind ≠ .comment)
    (hs : n.stop ≤ s.last) : Reads t r s (cs ++ [n]) := by
  refine ⟨h.stands, h.offset_le, h.last_le, ?_, ?_, ?_, ?_⟩
  · rw [commentsOf_append, commentsOf_singleton hk, List.append_nil]
    exact h.comments_eq
  · exact Or.inr (Node.Row.snoc_iff.mpr ⟨hrow, hn.start_le_stop, hs⟩)
  · intro m hm
    rcases List.mem_append.mp hm with hm | hm
    · exact h.regular m hm
    · rw [List.mem_singleton.mp hm]
      exact hn
  · intro m hm
    rcases List.mem_append.mp hm with hm | hm
    · exact h.comment m hm
    · rw [List.mem_singleton.mp hm]
      exact fun h => absurd h hk

theorem Reads.row_snoc {r s : Reader} {cs : List Node} {n : Node}
    (h : Reads t r s (cs ++ [n])) :
    Node.Row r.offset n.start cs ∧ n.start ≤ n.stop ∧ n.stop ≤ s.last := by
  rcases h.row with h | h
  · exact absurd (List.append_eq_nil_iff.mp h).2 (List.cons_ne_nil _ _)
  · exact Node.Row.snoc_iff.mp h

/-- another node in the place of the last one -/
theorem Reads.exchange {r s : Reader} {cs : List Node} {n m : Node}
    (h : Reads t r s (cs ++ [n])) (hn : n.kind ≠ .comment) (hm : m.Regular t)
    (hk : m.kind ≠ .comment) (hstart : m.start = n.start) (hstop : m.stop ≤ s.last) :
    Reads t r s (cs ++ [m]) := by
  have hcs : Reads t r s cs := h.sublist (List.sublist_append_left cs [n]) (by
    rw [commentsOf_append, commentsOf_singleton hn, List.append_nil])
  exact hcs.snoc hm (hstart ▸ h.row_snoc.1) hk hstop

theorem Reads.nodesOf_snoc {cs : List Node} {n : Node} (hcs : nodesOf cs = [])
    (hn : n.kind ≠ .comment) : nodesOf (cs ++ [n]) = [n] := by
  rw [nodesOf_append, hcs, nodesOf_singleton hn]
  rfl

theorem Given.yielded {r s : Reader} {n : Node} (h : Given t r n s) :
    Yielded t Part (fun n ns => [n] = ns) [] r n s := by
  obtain ⟨cs, hcs, hnil, hn⟩ := h
  refine ⟨_, hcs, ?_, (Reads.nodesOf_snoc hnil hn.1.1).symm⟩
  intro m hm
  rw [Reads.nodesOf_snoc hnil hn.1.1] at hm
  rw [List.mem_singleton.mp hm]
  exact hn

theorem Yielded.plain {Q : α → List Node → Prop} {r s : Reader} {a : α}
    (h : Yielded t Part Q front r a s) : Yielded t Plain Q front r a s := by
  obtain ⟨ws, hws, hP, hQ⟩ := h
  exact ⟨ws, hws, fun n hn => (hP n hn).1, hQ⟩

theorem Yields.plain {Q : α → List Node → Prop} {p : Parser α} (h : Yields t Part Q front p) :
    Yields t Plain Q front p := fun r hr => (h r hr).mono fun _ _ h => h.plain

/-- the node left out -/
theorem Given.dropped {r s : Reader} {n : Node} (h : Given t r n s) :
    Yielded t P (fun _ ns => ns = []) [] r n s := by
  obtain ⟨ws, hws, hP, hQ⟩ := h.yielded.quiet
  exact ⟨ws, hws, fun n hn => (hP n hn).elim, hQ⟩

/-- the node in a role -/
theorem Given.inRole {r s : Reader} {n : Node} (h : Given t r n s) (c : Role) :
    Yielded t Plain (fun n ns => [n.withRole c] = ns) [] r n s := by
  obtain ⟨cs, hcs, hnil, hn⟩ := h
  have hreg := hcs.regular n (List.mem_append_right _ List.mem_cons_self)
  have hm := hn.1.withRole c
  have heq : (n.withRole c).span = n.span := by cases n; rfl
  have hstop : (n.withRole c).stop = n.stop := congrArg Span.stop heq
  refine ⟨_, hcs.exchange hn.1.1 (hreg.withRole c) hm.1 (congrArg Span.start heq)
    (hstop ▸ hcs.row_snoc.2.2), ?_, (Reads.nodesOf_snoc hnil hm.1).symm⟩
  intro k hk
  rw [Reads.nodesOf_snoc hnil hm.1] at hk
  rw [List.mem_singleton.mp hk]
  exact hm

namespace Gives

variable {p : Parser Node} {f : Node → Parser β}

theorem yields (hp : Gives t p) : Yields t Part (fun n ns => [n] = ns) [] p :=
  fun r hr => (hp r hr).mono fun _ _ h => h.yielded

theorem inRole (hp : Gives t p) (c : Role) :
    Yields t Plain (fun n ns => [n.withRole c] = ns) [] p :=
  fun r hr => (hp r hr).mono fun _ _ h => h.inRole c

theorem bind (hp : Gives t p) (hf : ∀ n, Yields t Part R (front ++ [n]) (f n)) :
    Yields t Part R front (p >>= f) :=
  hp.yields.bind fun n _ h => h ▸ hf n

theorem bind_plain (hp : Gives t p) (hf : ∀ n, Yields t Plain R (front ++ [n]) (f n)) :
    Yields t Plain R front (p >>= f) :=
  (hp.yields.mono (fun _ h => h.1) fun _ _ h => h).bind fun n _ h => h ▸ hf n

/-- the node, if it is listed in the role `c` -/
theorem bind_role (hp : Gives t p) (c : Role)
    (hf : ∀ n, Yields t Plain R (front ++ [n.withRole c]) (f n)) :
    Yields t Plain R front (p >>= f) :=
  (hp.inRole c).bind fun n _ h => h ▸ hf n

theorem one (hp : Gives t p) : Lists t Part [] (one p) := hp.yields.map

theorem quiet (hp : Gives t p) : Quiet t p := hp.yields.quiet

/-! ### parsers put together -/

theorem orElse {q : Parser Node} (hp : Gives t p) (hq : Gives t q) : Gives t (p <|> q) :=
  fun r hr => (hp r hr).orElse (hq r hr)

theorem fail : Gives t Parser.fail := fun _ hr => Ends.fail hr

theorem ite {c : Prop} [Decidable c] {q : Parser Node} (hp : Gives t p) (hq : Gives t q) :
    Gives t (if c then p else q) := by
  split
  · exact hp
  · exact hq

theorem look {g : Reader → α} {f : α → Parser Node} (hf : ∀ a, Gives t (f a)) :
    Gives t (look g >>= f) := fun r hr => hf (g r) r hr

/-- what is seen of the place is what is there -/
theorem look_at {g : Reader → α} {f : α → Parser Node} (hf : ∀ r, Gives t (f (g r))) :
    Gives t (Parser.look g >>= f) := fun r hr => hf r r hr

/-- a node behind something of no interest -/
theorem after {q : Parser α} {f : α → Parser Node} (hq : Quiet t q) (hf : ∀ a, Gives t (f a)) :
    Gives t (q >>= f) := by
  intro r hr
  refine (hq r hr).bind fun a s h => ?_
  obtain ⟨ws, hws, -, hnil⟩ := h
  refine (hf a s hws.stands).mono fun n u h => ?_
  obtain ⟨cs, hcs, hn, hpart⟩ := h
  refine ⟨ws ++ cs, ?_, ?_, hpart⟩
  · rw [List.append_assoc]
    exact hws.trans hcs
  · rw [nodesOf_append, hn, List.append_nil]
    exact hnil

end Gives

theorem Spans.leaf {p : Parser Span} (hp : Spans t p) {k : Kind} (hk : k.isOrdinary = true) :
    Gives t (leaf k p) := by
  intro r hr
  refine (hp r hr).map fun a s h => ?_
  obtain ⟨cs, hcs, hnil, hrow, hle, hstop, hstart⟩ := h
  have hpart := part_of_isOrdinary hk a []
  have hbound : t.isBoundary a.stop = true := by
    rw [hstop]
    exact hcs.stands.last_boundary
  have hreg : (Node.mk k .part a []).Regular t :=
    .intro ⟨Node.suits_of_isOrdinary hk .part a [], hle, hstart, hbound⟩
      fun _ hc => absurd hc List.not_mem_nil
  exact ⟨cs, hcs.snoc hreg hrow hpart.1.1 (Nat.le_of_eq hstop), hnil, hpart⟩

/-- a word that is kept as the mark of a type -/
theorem Spans.mark {p : Parser Span} (hp : Spans t p) :
    Yields t Plain (fun n ns => [n] = ns ∧ n.role = .part) [] (Parser.leaf .typeKeyword p) := by
  intro r hr
  refine (hp r hr).map fun a s h => ?_
  obtain ⟨cs, hcs, hnil, hrow, hle, hstop, hstart⟩ := h
  have hplain : Plain (.mk .typeKeyword .part a []) := ⟨nofun, nofun, nofun⟩
  have hbound : t.isBoundary a.stop = true := by
    rw [hstop]
    exact hcs.stands.last_boundary
  have hreg : (Node.mk .typeKeyword .part a []).Regular t :=
    .intro ⟨⟨nofun, nofun, nofun, nofun, nofun, nofun, nofun⟩, hle, hstart, hbound⟩
      fun _ hc => absurd hc List.not_mem_nil
  refine ⟨_, hcs.snoc hreg hrow hplain.1 (Nat.le_of_eq hstop), ?_,
    (Reads.nodesOf_snoc hnil hplain.1).symm, rfl⟩
  intro n hn
  rw [Reads.nodesOf_snoc hnil hplain.1] at hn
  rw [List.mem_singleton.mp hn]
  exact hplain

/-! ## nodes around what is read -/


/-- what is read from an empty list of comments on is woven together from the two lists kept -/
theorem Reads.weave_eq {r u : Reader} {ws : List Node} (h : Reads t r u ws)
    (hr : r.comments = []) : weave (nodesOf ws) u.comments.reverse = ws := by
  have hc : u.comments.reverse = commentsOf ws := by
    rw [h.comments_eq, hr, List.append_nil, List.reverse_reverse]
  rw [hc]
  rcases h.row with rfl | hrow
  · rfl
  · refine weave_row hrow fun d hd => ?_
    obtain ⟨hd, hk⟩ := mem_commentsOf.mp hd
    exact (h.regular d hd).placed.comment hk

/-- **What a parser reads stands in a row inside of the node made of it**, and the node is regular
if it suits its kind. -/
theorem ends_nodeOf {p : Parser (Kind × List Node)} {Q : Kind × List Node → List Node → Prop}
    {K : Kind → Prop} (hp : Yields t P Q [] p) (hQ : ∀ a ns, Q a ns → a.2 = ns)
    (hk : ∀ (r u : Reader) a ws, r.At t → p { r.settle with comments := [] } = .done a u →
      Reads t { r.settle with comments := [] } u ws → (∀ n ∈ nodesOf ws, P n) →
      Q a (nodesOf ws) →
      (Node.mk a.1 .part ⟨r.settle.offset, max r.settle.offset u.last⟩ ws).Suits t ∧
        a.1 ≠ .comment ∧ K a.1) {r : Reader} (hr : r.At t) :
    Ends t (fun n s => ∃ cs, Reads t r s (cs ++ [n]) ∧ nodesOf cs = [] ∧ n.kind ≠ .comment ∧
      K n.kind ∧ n.role = .part) (nodeOf p r) := by
  obtain ⟨cs, hcs⟩ := hr.settles
  have hs : ({ r.settle with comments := [] } : Reader).At t := hcs.stands.withComments []
  have h := hp _ hs
  unfold Parser.nodeOf
  dsimp only
  cases hpr : p { r.settle with comments := [] } with
  | halt k =>
    rw [hpr] at h
    exact h
  | done a u =>
    rw [hpr] at h
    obtain ⟨ws, hws, hP, hq⟩ := h
    obtain ⟨hsuits, hcomment, hK⟩ := hk r u a ws hr hpr hws hP hq
    obtain ⟨k, l⟩ := a
    obtain rfl : l = nodesOf ws := hQ _ _ hq
    have hu := hws.stands
    have hle : r.settle.offset ≤ u.offset := hws.offset_le
    have hmax : max r.settle.offset u.last ≤ u.offset := Nat.max_le.mpr ⟨hle, hu.last_le⟩
    have hbound : t.isBoundary (max r.settle.offset u.last) = true := by
      rcases Nat.le_total r.settle.offset u.last with h | h
      · rw [Nat.max_eq_right h]
        exact hu.last_boundary
      · rw [Nat.max_eq_left h]
        exact hs.offset_boundary
    have hrow : Node.Row r.settle.offset (max r.settle.offset u.last) ws := by
      rcases hws.row with rfl | h
      · exact Nat.le_max_left _ _
      · exact h.mono (Nat.le_refl _) (Nat.le_max_right _ _)
    have hreg : (Node.mk k .part ⟨r.settle.offset, max r.settle.offset u.last⟩ ws).Regular t :=
      .intro ⟨hsuits, hrow, hs.offset_boundary, hbound⟩ hws.regular
    have hread : Reads t r
        { u with last := max r.settle.offset u.last, comments := r.settle.comments } cs :=
      .of_settles hcs ((hu.withComments r.settle.comments).withLast hmax hbound) (Nat.le_max_left _ _) rfl
    show ∃ cs, Reads t r _ (cs ++ [Node.mk k .part _ (weave (nodesOf ws) u.comments.reverse)]) ∧ _
    rw [hws.weave_eq rfl]
    exact ⟨cs, hread.snoc hreg hcs.row hcomment (Nat.le_refl _), hcs.nodesOf_eq, hcomment, hK, rfl⟩

/-- the same for a node of a kind that may stand anywhere -/
theorem Gives.nodeOf_of {p : Parser (Kind × List Node)} {Q : Kind × List Node → List Node → Prop}
    (hp : Yields t P Q [] p) (hQ : ∀ a ns, Q a ns → a.2 = ns)
    (hk : ∀ (r u : Reader) a ws, r.At t → p { r.settle with comments := [] } = .done a u →
      Reads t { r.settle with comments := [] } u ws → (∀ n ∈ nodesOf ws, P n) →
      Q a (nodesOf ws) →
      (Node.mk a.1 .part ⟨r.settle.offset, max r.settle.offset u.last⟩ ws).Suits t ∧
        a.1 ≠ .comment ∧ a.1.isNamed = true ∧ a.1 ≠ .exportClause) :
    Gives t (nodeOf p) := by
  intro r hr
  refine (ends_nodeOf (K := fun k => k.isNamed = true ∧ k ≠ .exportClause) hp hQ hk hr).mono
    fun n s h => ?_
  obtain ⟨cs, hcs, hnil, hcomment, ⟨hnamed, hclause⟩, hrole⟩ := h
  have hkeyword : n.kind ≠ .defaultKeyword := by
    intro h
    rw [h] at hnamed
    cases hnamed
  exact ⟨cs, hcs, hnil, ⟨hcomment, hkeyword, hclause⟩, hrole, hnamed⟩


theorem Gives.nodeOf {p : Parser (Kind × List Node)}
    (hp : Yields t Plain (fun a ns => a.1.isOrdinary = true ∧ a.2 = ns) [] p) :
    Gives t (nodeOf p) :=
  .nodeOf_of hp (fun _ _ h => h.2) fun _ _ _ ws _ _ _ _ h =>
    have hpart := part_of_isOrdinary h.1 ⟨0, 0⟩ ws
    ⟨Node.suits_of_isOrdinary h.1 _ _ _, hpart.1.1, hpart.2.2, hpart.1.2.2⟩

/-- the same for what may be a pair of parentheses around something -/
theorem Gives.nodeOf_parentheses {p : Parser (Kind × List Node)}
    (hp : Yields t Part (fun a ns => (a.1.isOrdinary = true ∨
      a.1 = .parenthesizedExpression ∧ ns ≠ []) ∧ a.2 = ns) [] p) :
    Gives t (Parser.nodeOf p) := by
  refine .nodeOf_of hp (fun _ _ h => h.2) fun r u a ws _ _ _ hP h => ?_
  obtain ⟨k, l⟩ := a
  obtain ⟨hk | ⟨rfl, hne⟩, -⟩ :
    (k.isOrdinary = true ∨ k = .parenthesizedExpression ∧ nodesOf ws ≠ []) ∧ l = nodesOf ws := h
  · have hpart := part_of_isOrdinary hk ⟨0, 0⟩ ws
    exact ⟨Node.suits_of_isOrdinary hk _ _ _, hpart.1.1, hpart.2.2, hpart.1.2.2⟩
  · obtain ⟨e, rest, hns⟩ := List.exists_cons_of_ne_nil hne
    obtain ⟨cs, rest', hws, hcs, he, -⟩ := List.filter_eq_cons_iff.mp hns
    have hpart : Part e := hP e (hns ▸ List.mem_cons_self)
    refine ⟨Node.suits_of_wrapperForm rfl ?_, nofun, rfl, nofun⟩
    rw [hws]
    refine .parentheses (fun c hc => Decidable.byContradiction fun hk => ?_) hpart.1.1 hpart.2.2
    exact hcs c hc (decide_eq_true hk)

theorem Lists.node_plain {p : Parser (List Node)} (hp : Lists t Plain [] p) {k : Kind}
    (hk : k.isOrdinary = true) : Gives t (node k p) :=
  .nodeOf (.map (hp.mono (fun _ h => h) fun _ _ h => ⟨hk, h⟩))

theorem Lists.quiet {p : Parser (List Node)} (hp : Lists t P front p) : Quiet t p :=
  Yields.quiet hp

theorem Lists.plain {p : Parser (List Node)} (hp : Lists t Part front p) :
    Lists t Plain front p := Yields.plain hp

theorem Lists.node {p : Parser (List Node)} (hp : Lists t Part [] p) {k : Kind}
    (hk : k.isOrdinary = true) : Gives t (node k p) := hp.plain.node_plain hk

/-- where nothing is read over, a brace is read where the reader stands -/
theorem opens_mark {r : Reader} (hr : r.At t) (hstill : r.Still) :
    Ends t (fun _ s => s.At t ∧ r.rest.head? = some '{' ∧ r.offset < s.last ∧
      r.offset < s.offset ∧ s.comments = r.comments) (mark "\x7b" r) := by
  have hstuck := Ends.stuck hr
  unfold mark token
  rw [hstill.settle_eq]
  dsimp only
  cases hrest : r.rest with
  | nil => exact hstuck
  | cons c w =>
    by_cases hc : '{' = c
    · subst hc
      have hu := (hr.advance 1).ended
      have hlt : r.offset < (r.advance 1).offset := by
        rw [Reader.advance_eq, hrest]
        exact Nat.lt_add_of_pos_right Text.size_pos
      exact ⟨hu, rfl, hlt, hlt, Reader.advance_comments 1 r⟩
    · have hnone : Lexeme.exactly "\x7b" (c :: w) = none :=
        if_neg fun h => hc (of_decide_eq_true (Bool.and_eq_true_iff.mp h).1)
      rw [hnone]
      exact hstuck

/-- **An object is a node that begins with its brace.** -/
theorem Gives.object {p : Parser (List Node)} (hp : Lists t Part [] p) :
    Gives t (node .object (mark "\x7b" >>= fun _ => p)) := by
  have hbody : Yields t Part (fun (a : Kind × List Node) ns => a.1 = .object ∧ a.2 = ns) []
      ((fun cs => (Kind.object, cs)) <$> (mark "\x7b" >>= fun _ => p)) :=
    .map ((quiet_mark _).bind fun _ => hp.mono (fun _ h => h) fun _ _ h => ⟨rfl, h⟩)
  refine .nodeOf_of hbody (fun _ _ h => h.2) fun r u a ws hr hdone hws _ h => ?_
  obtain ⟨cs, hcs⟩ := hr.settles
  have hs : ({ r.settle with comments := [] } : Reader).At t := hcs.stands.withComments []
  have hopen : Ends t (fun a u => r.settle.rest.head? = some '{' ∧ r.settle.offset < u.last ∧
      ∀ c ∈ weave a.2 u.comments.reverse, r.settle.offset < c.start)
      (((fun cs => (Kind.object, cs)) <$> (mark "\x7b" >>= fun _ => p))
        { r.settle with comments := [] }) := by
    refine Ends.map (D := fun l u => r.settle.rest.head? = some '{' ∧ r.settle.offset < u.last ∧
      ∀ c ∈ weave l u.comments.reverse, r.settle.offset < c.start) ?_ fun _ _ h => h
    refine (opens_mark hs (Reader.still_settle hr)).bind fun _ s h => ?_
    obtain ⟨hat, hbrace, hlt, hlt', hcomments⟩ := h
    refine (hp s hat).mono fun l u h => ?_
    obtain ⟨ws, hread, -, rfl⟩ := h
    refine ⟨hbrace, Nat.lt_of_lt_of_le hlt hread.last_le, fun c hc => ?_⟩
    rw [List.nil_append, hread.weave_eq hcomments] at hc
    rcases hread.row with rfl | hrow
    · cases hc
    · exact Nat.lt_of_lt_of_le hlt' (hrow.mem hc).1
  rw [hdone] at hopen
  obtain ⟨k, l⟩ := a
  obtain ⟨rfl, rfl⟩ : k = .object ∧ l = nodesOf ws := h
  obtain ⟨hbrace, hlt, hbehind⟩ := hopen
  refine ⟨⟨nofun, fun _ => ?_, fun _ c hc => hbehind c ?_, nofun, nofun, nofun, nofun⟩, nofun, rfl,
    nofun⟩
  · have hmax : max r.settle.offset u.last = u.last := Nat.max_eq_right (Nat.le_of_lt hlt)
    show (t.slice r.settle.offset (max r.settle.offset u.last)).head? = some '{'
    rw [hmax, hcs.stands.head_slice hlt hws.stands.last_boundary]
    exact hbrace
  · rw [hws.weave_eq rfl]
    exact hc

/-! ## nodes that grow -/

/-- `p` reads on behind the node `n`, and `v` of what it gives is that node or a larger one in its
place -/
def Extends (t : Text) (n : Node) (v : α → Node) (p : Parser α) : Prop :=
  n.Regular t → Part n → ∀ r : Reader, r.At t → n.stop ≤ r.last →
    Ends t (fun a s => Reads t r s [] ∧ (v a).Regular t ∧ Part (v a) ∧ (v a).start = n.start ∧
      (v a).stop ≤ s.last) (p r)

theorem Given.extend {r s : Reader} {n : Node} (h : Given t r n s) {p : Parser Node}
    (hp : Extends t n id p) : Ends t (Given t r) (p s) := by
  obtain ⟨cs, hcs, hnil, hn⟩ := h
  have hreg := hcs.regular n (List.mem_append_right _ List.mem_cons_self)
  refine (hp hreg hn s hcs.stands hcs.row_snoc.2.2).mono fun m u h => ?_
  obtain ⟨hsu, hm, hpart, hstart, hstop⟩ := h
  have hru := hcs.trans hsu
  rw [List.append_nil] at hru
  exact ⟨cs, hru.exchange hn.1.1 hm hpart.1.1 hstart hstop, hnil, hpart⟩

theorem Gives.extend {p : Parser Node} {f : Node → Parser Node} (hp : Gives t p)
    (hf : ∀ n, Extends t n id (f n)) : Gives t (p >>= f) :=
  fun r hr => (hp r hr).bind fun n _ h => h.extend (hf n)

theorem Gives.extend_one {p : Parser Node} {f : Node → Parser Node} (hp : Gives t p)
    (hf : ∀ n, Extends t n id (f n)) :
    Lists t Part [] (p >>= fun n => Parser.one (f n)) :=
  fun r hr => (hp r hr).bind fun n _ h => (h.extend (hf n)).map fun _ _ h => h.yielded

namespace Extends

variable {n : Node} {v : α → Node} {w : β → Node} {p : Parser α}

theorem pure {a : α} (h : v a = n) : Extends t n v (Pure.pure a) := by
  intro hn hpart r hr hle
  refine ⟨.refl hr, ?_⟩
  rw [h]
  exact ⟨hn, hpart, rfl, hle⟩

/-- the same parts as a node of another kind -/
theorem relabel {k : Kind} (hk : k.isOrdinary = true) :
    Extends t n id (Pure.pure (.mk k .part n.span n.children)) :=
  fun hn _ _ hr hle => ⟨.refl hr, hn.relabel hk .part, part_of_isOrdinary hk _ _, rfl, hle⟩

theorem bind {f : α → Parser β} (hp : Extends t n v p) (hf : ∀ a, Extends t (v a) w (f a)) :
    Extends t n w (p >>= f) := by
  intro hn hpart r hr hle
  refine (hp hn hpart r hr hle).bind fun a s h => ?_
  obtain ⟨hrs, hv, hvpart, hstart, hstop⟩ := h
  refine (hf a hv hvpart s hrs.stands hstop).mono fun b u h => ?_
  obtain ⟨hsu, hw, hwpart, hstart', hstop'⟩ := h
  exact ⟨hrs.trans hsu, hw, hwpart, hstart'.trans hstart, hstop'⟩

theorem map {g : α → β} (hp : Extends t n (fun a => w (g a)) p) : Extends t n w (g <$> p) :=
  fun hn hpart r hr hle => (hp hn hpart r hr hle).map fun _ _ h => h

theorem look {g : Reader → β} {f : β → Parser α} (hf : ∀ b, Extends t n v (f b)) :
    Extends t n v (look g >>= f) :=
  fun hn hpart r hr hle => hf (g r) hn hpart r hr hle

theorem ite {c : Prop} [Decidable c] {q : Parser α} (hp : Extends t n v p)
    (hq : Extends t n v q) : Extends t n v (if c then p else q) := by
  split
  · exact hp
  · exact hq

theorem orElse {q : Parser α} (hp : Extends t n v p) (hq : Extends t n v q) :
    Extends t n v (p <|> q) :=
  fun hn hpart r hr hle => (hp hn hpart r hr hle).orElse (hq hn hpart r hr hle)

theorem optional {p : Parser Node} (hp : Extends t n id p) :
    Extends t n (·.getD n) (optional p) :=
  .orElse (.map hp) (.pure rfl)

/-- **The node and what is read behind it stand in a row inside of the larger node.** -/
theorem grow_of {p : Parser (List Node)} (hp : Lists t Part [] p) {k : Kind}
    (hsuits : Part n → ∀ (s : Span) (ws : List Node), n.start = s.start →
      (Node.mk k .part s (n :: ws)).Suits t)
    (hk : ∀ (s : Span) (ws : List Node), Part (.mk k .part s ws)) :
    Extends t n id (grow k n p) := by
  intro hn hpart r hr hle
  have h := hp _ (hr.withComments [])
  unfold Parser.grow
  cases hpr : p { r with comments := [] } with
  | halt h' =>
    rw [hpr] at h
    exact h
  | done l u =>
    rw [hpr] at h
    obtain ⟨ws, hws, -, rfl⟩ := h
    have hstop : n.stop ≤ u.last := Nat.le_trans hle hws.last_le
    have hrow : Node.Row n.start u.last (n :: ws) := by
      refine ⟨Nat.le_refl _, hn.start_le_stop, ?_⟩
      rcases hws.row with rfl | h
      · exact hstop
      · exact h.mono (Nat.le_trans hle hr.last_le) (Nat.le_refl _)
    have hreg : (Node.mk k .part ⟨n.start, u.last⟩ (n :: ws)).Regular t := by
      refine .intro ⟨hsuits hpart _ _ rfl, hrow, hn.placed.start_boundary,
        hws.stands.last_boundary⟩ fun c hc => ?_
      rcases List.mem_cons.mp hc with rfl | hc
      · exact hn
      · exact hws.regular c hc
    refine ⟨⟨hws.stands.withComments _, hws.offset_le, hws.last_le, rfl, Or.inl rfl,
      fun _ hc => absurd hc List.not_mem_nil, fun _ hc => absurd hc List.not_mem_nil⟩, ?_⟩
    show (Node.mk k .part _ (n :: weave (nodesOf ws) u.comments.reverse)).Regular t ∧ _
    rw [hws.weave_eq rfl]
    exact ⟨hreg, hk _ _, rfl, Nat.le_refl _⟩

theorem grow {p : Parser (List Node)} (hp : Lists t Part [] p) {k : Kind}
    (hk : k.isOrdinary = true) : Extends t n id (grow k n p) :=
  .grow_of hp (fun _ _ _ _ => Node.suits_of_isOrdinary hk _ _ _) fun s ws => part_of_isOrdinary hk s ws

/-- a wrapper around the node -/
theorem wrap {p : Parser (List Node)} (hp : Lists t Part [] p) {k : Kind}
    (hk : k.isWrapper = true) : Extends t n id (Parser.grow k n p) := by
  refine .grow_of hp (fun hn s ws hs => ?_) fun s ws => ?_
  · exact Node.suits_of_wrapperForm hk (.first hn.1.1 hn.2.2 hs)
  · show Part (.mk k .part s ws)
    cases k with
    | satisfiesExpression => exact ⟨⟨nofun, nofun, nofun⟩, rfl, rfl⟩
    | asExpression => exact ⟨⟨nofun, nofun, nofun⟩, rfl, rfl⟩
    | nonNullExpression => exact ⟨⟨nofun, nofun, nofun⟩, rfl, rfl⟩
    | parenthesizedExpression => exact ⟨⟨nofun, nofun, nofun⟩, rfl, rfl⟩
    | _ => cases hk

theorem loop {step : Node → Parser (Option Node)}
    (hstep : ∀ m, Extends t m (·.getD m) (step m)) : Extends t n id (loop step n) := by
  intro hn hpart r hr hle
  show Ends t _ (loop.go step r.limit n r)
  generalize r.limit = k
  induction k generalizing n r with
  | zero => exact pure (v := id) rfl hn hpart r hr hle
  | succ k ih =>
    have hs := hstep n hn hpart r hr hle
    rw [loop.go]
    cases hsr : step n r with
    | halt h =>
      rw [hsr] at hs
      exact hs
    | done o s =>
      rw [hsr] at hs
      obtain ⟨hrs, hv, hvpart, hstart, hstop⟩ := hs
      cases o with
      | none => exact ⟨hrs, hv, hvpart, hstart, hstop⟩
      | some m =>
        refine (ih hv hvpart s hrs.stands hstop).mono fun m' u h => ?_
        obtain ⟨hsu, hw, hwpart, hstart', hstop'⟩ := h
        exact ⟨hrs.trans hsu, hw, hwpart, hstart'.trans hstart, hstop'⟩

end Extends

end StorySuite.Grammar
