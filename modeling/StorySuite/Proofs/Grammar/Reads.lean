import StorySuite.Proofs.Grammar.Place
import StorySuite.Grammar.Rules

/-!
# What parsers read

A parser that is done has read some nodes and some comments, which stand in a row behind each
other (`Reads`).

* `weave_row`                        nodes and their comments, woven together, are what was read;
* `Reads.trans`, `Reads.sublist`     reading on, and what is left when nodes are left out;
* `Reads.after_settles`, `Reads.of_settles`   what is read over in front of a token counts as read.
-/

namespace StorySuite.Grammar

open Grammar.Parser

variable {t : Text} {α β : Type}

/-! ## nodes and comments -/

/-- the comments among some nodes -/
def commentsOf (ws : List Node) : List Node := ws.filter fun n => n.kind = .comment

/-- the nodes that are no comments -/
def nodesOf (ws : List Node) : List Node := ws.filter fun n => n.kind ≠ .comment

@[simp] theorem commentsOf_append (us ws : List Node) :
    commentsOf (us ++ ws) = commentsOf us ++ commentsOf ws := List.filter_append us ws

@[simp] theorem nodesOf_append (us ws : List Node) :
    nodesOf (us ++ ws) = nodesOf us ++ nodesOf ws := List.filter_append us ws

theorem nodesOf_singleton {n : Node} (h : n.kind ≠ .comment) : nodesOf [n] = [n] :=
  List.filter_cons_of_pos (decide_eq_true h)

theorem commentsOf_singleton {n : Node} (h : n.kind ≠ .comment) : commentsOf [n] = [] :=
  List.filter_cons_of_neg fun hc => h (of_decide_eq_true hc)

theorem mem_commentsOf {ws : List Node} {n : Node} :
    n ∈ commentsOf ws ↔ n ∈ ws ∧ n.kind = .comment := by
  unfold commentsOf
  rw [List.mem_filter, decide_eq_true_eq]

theorem mem_nodesOf {ws : List Node} {n : Node} :
    n ∈ nodesOf ws ↔ n ∈ ws ∧ n.kind ≠ .comment := by
  unfold nodesOf
  rw [List.mem_filter, decide_eq_true_eq]

theorem eq_commentsOf {cs : List Node} (h : nodesOf cs = []) : commentsOf cs = cs := by
  refine List.filter_eq_self.mpr fun c hc => decide_eq_true ?_
  by_cases hk : c.kind = .comment
  · exact hk
  · have hmem := mem_nodesOf.mpr ⟨hc, hk⟩
    rw [h] at hmem
    cases hmem

theorem nodesOf_commentsOf (ws : List Node) : nodesOf (commentsOf ws) = [] := by
  unfold nodesOf
  refine List.filter_eq_nil_iff.mpr fun n hn h => ?_
  exact of_decide_eq_true h (mem_commentsOf.mp hn).2

/-- the last node, and the comments behind it -/
theorem exists_last {ws ns : List Node} {n : Node} (h : nodesOf ws = ns ++ [n]) :
    ∃ us cs, ws = us ++ n :: cs ∧ nodesOf us = ns ∧ nodesOf cs = [] := by
  obtain ⟨us, vs, rfl, hus, hvs⟩ := List.filter_eq_append_iff.mp h
  obtain ⟨xs, cs, rfl, hxs, hn, hcs⟩ := List.filter_eq_cons_iff.mp hvs
  refine ⟨us ++ xs, cs, List.append_assoc _ _ _ |>.symm, ?_, hcs⟩
  have hnil : nodesOf xs = [] := List.filter_eq_nil_iff.mpr hxs
  rw [nodesOf_append, hnil, List.append_nil]
  exact hus

theorem weave_comment {d : Node} {ns ds : List Node} (h : ∀ n ∈ ns, d.start < n.start) :
    weave ns (d :: ds) = d :: weave ns ds := by
  cases ns with
  | nil => rfl
  | cons n ns =>
    have hd := h n List.mem_cons_self
    simp only [weave, List.takeWhile_cons, List.dropWhile_cons, decide_eq_true hd, if_true,
      List.cons_append]

theorem weave_node {n : Node} {ns ds : List Node} (h : ∀ d ∈ ds, n.start ≤ d.start) :
    weave (n :: ns) ds = n :: weave ns ds := by
  cases ds with
  | nil => rfl
  | cons d ds =>
    have hd := Nat.not_lt.mpr (h d List.mem_cons_self)
    simp only [weave, List.takeWhile_cons, List.dropWhile_cons, decide_eq_false hd,
      Bool.false_eq_true, if_false, List.nil_append]

/-- **Nodes and comments in a row are woven into that row again.** -/
theorem weave_row {a b : Nat} {ws : List Node} (h : Node.Row a b ws)
    (hpos : ∀ d ∈ commentsOf ws, d.start < d.stop) :
    weave (nodesOf ws) (commentsOf ws) = ws := by
  induction ws generalizing a with
  | nil => rfl
  | cons w ws ih =>
    obtain ⟨-, hw, hrow⟩ := h
    have hsub : ∀ d ∈ commentsOf ws, d ∈ commentsOf (w :: ws) := fun d hd =>
      mem_commentsOf.mpr ⟨List.mem_cons_of_mem _ (mem_commentsOf.mp hd).1, (mem_commentsOf.mp hd).2⟩
    have ih' := ih hrow fun d hd => hpos d (hsub d hd)
    by_cases hk : w.kind = .comment
    · have hn : nodesOf (w :: ws) = nodesOf ws := List.filter_cons_of_neg (by simp [hk])
      have hc : commentsOf (w :: ws) = w :: commentsOf ws := List.filter_cons_of_pos (by simp [hk])
      rw [hn, hc, weave_comment, ih']
      intro n hn
      have hlt := hpos w (mem_commentsOf.mpr ⟨List.mem_cons_self, hk⟩)
      exact Nat.lt_of_lt_of_le hlt (hrow.mem (mem_nodesOf.mp hn).1).1
    · have hn : nodesOf (w :: ws) = w :: nodesOf ws := List.filter_cons_of_pos (by simp [hk])
      have hc : commentsOf (w :: ws) = commentsOf ws := List.filter_cons_of_neg (by simp [hk])
      rw [hn, hc, weave_node, ih']
      intro d hd
      exact Nat.le_trans hw (hrow.mem (mem_commentsOf.mp hd).1).1

/-! ## from one place to another -/

/-- from `r` to `s` over the nodes and comments `ws` -/
structure Reads (t : Text) (r s : Reader) (ws : List Node) : Prop where
  stands : s.At t
  offset_le : r.offset ≤ s.offset
  last_le : r.last ≤ s.last
  comments_eq : s.comments = (commentsOf ws).reverse ++ r.comments
  row : ws = [] ∨ Node.Row r.offset s.last ws
  regular : ∀ n ∈ ws, n.Regular t
  comment : ∀ n ∈ ws, n.kind = .comment → n.role = .part

/-- where a parser stopped lies in the text -/
def Halt.In (t : Text) (h : Halt) : Prop :=
  h.last ≤ h.offset ∧ t.isBoundary h.last = true

theorem Reader.Settles.commentsOf_eq {r s : Reader} {cs : List Node}
    (h : Reader.Settles t r s cs) : commentsOf cs = cs :=
  List.filter_eq_self.mpr fun c hc => decide_eq_true (h.comment c hc).2.1

theorem Reader.Settles.nodesOf_eq {r s : Reader} {cs : List Node} (h : Reader.Settles t r s cs) :
    nodesOf cs = [] := by
  rw [← h.commentsOf_eq]
  exact nodesOf_commentsOf cs

namespace Reads

variable {r s u : Reader} {us ws : List Node}

theorem refl (h : r.At t) : Reads t r r [] :=
  ⟨h, Nat.le_refl _, Nat.le_refl _, rfl, Or.inl rfl, fun _ hn => absurd hn List.not_mem_nil,
    fun _ hn => absurd hn List.not_mem_nil⟩

theorem trans (h : Reads t r s us) (h' : Reads t s u ws) : Reads t r u (us ++ ws) := by
  refine ⟨h'.stands, Nat.le_trans h.offset_le h'.offset_le, Nat.le_trans h.last_le h'.last_le,
    ?_, ?_, ?_, ?_⟩
  · rw [h'.comments_eq, h.comments_eq, commentsOf_append, List.reverse_append, List.append_assoc]
  · rcases h.row with rfl | hu
    · rcases h'.row with rfl | hw
      · exact Or.inl rfl
      · exact Or.inr (hw.mono h.offset_le (Nat.le_refl _))
    · rcases h'.row with rfl | hw
      · rw [List.append_nil]
        exact Or.inr (hu.mono (Nat.le_refl _) h'.last_le)
      · exact Or.inr (hu.append (hw.mono h.stands.last_le (Nat.le_refl _)))
  · intro n hn
    rcases List.mem_append.mp hn with hn | hn
    · exact h.regular n hn
    · exact h'.regular n hn
  · intro n hn
    rcases List.mem_append.mp hn with hn | hn
    · exact h.comment n hn
    · exact h'.comment n hn

/-- nodes can be left out, comments cannot -/
theorem sublist (h : Reads t r s ws) (hs : us.Sublist ws) (hc : commentsOf us = commentsOf ws) :
    Reads t r s us := by
  refine ⟨h.stands, h.offset_le, h.last_le, ?_, ?_, fun n hn => h.regular n (hs.subset hn),
    fun n hn => h.comment n (hs.subset hn)⟩
  · rw [hc]
    exact h.comments_eq
  · rcases h.row with rfl | hw
    · exact Or.inl (List.sublist_nil.mp hs)
    · exact Or.inr (hw.sublist hs)

theorem comments (h : Reads t r s ws) : Reads t r s (commentsOf ws) :=
  h.sublist List.filter_sublist (eq_commentsOf (nodesOf_commentsOf ws))

/-- over the way to a token, and on from there -/
theorem after_settles {cs : List Node} (h : Reader.Settles t r s cs) (h' : Reads t s u ws)
    (hle : s.offset ≤ u.last) : Reads t r u (cs ++ ws) := by
  refine ⟨h'.stands, Nat.le_trans h.offset_le h'.offset_le, h.last_eq ▸ h'.last_le, ?_, ?_, ?_, ?_⟩
  · rw [h'.comments_eq, h.comments_eq, commentsOf_append, h.commentsOf_eq, List.reverse_append,
      List.append_assoc]
  · rcases h'.row with rfl | hw
    · rw [List.append_nil]
      exact Or.inr (h.row.mono (Nat.le_refl _) hle)
    · exact Or.inr (h.row.append hw)
  · intro n hn
    rcases List.mem_append.mp hn with hn | hn
    · exact (h.comment n hn).1
    · exact h'.regular n hn
  · intro n hn
    rcases List.mem_append.mp hn with hn | hn
    · exact fun _ => (h.comment n hn).2.2
    · exact h'.comment n hn

/-- over the way to a token and the token -/
theorem of_settles {cs : List Node} (h : Reader.Settles t r s cs) (hu : u.At t)
    (hle : s.offset ≤ u.last) (hc : u.comments = s.comments) : Reads t r u cs := by
  have hsu : Reads t s u [] :=
    ⟨hu, Nat.le_trans hle hu.last_le, Nat.le_trans h.stands.last_le hle, hc, Or.inl rfl,
      fun _ hn => absurd hn List.not_mem_nil, fun _ hn => absurd hn List.not_mem_nil⟩
  have hru := after_settles h hsu hle
  rwa [List.append_nil] at hru

end Reads

end StorySuite.Grammar
