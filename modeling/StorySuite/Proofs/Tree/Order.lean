import Mathlib.Data.List.Lex
import StorySuite.Proofs.Tree.Walk

/-!
# The order of a walk

A walk is two loops, one in the other: the cursor goes down to the first child, and where there is
none it climbs until some node has a next sibling.  `Visits` and `Climbs` tell them by the moves of
the cursor alone, as chains of moves that come to an end.

A node of a tree is told by its address, the number of siblings to its left at each level.  In the
order of lists an address comes before those that it begins and before those that branch off to the
right of it, so the order of a walk is the order of addresses.

* `Node.at?`, `Walk.address`   the node at an address, and the address of a cursor;
* `visits_iff`                 **the loops end, and they visit what is to come of a walk**;
* `pairwise_stops`             addresses ascend along a walk;
* `exists_of_mem_stops`, `exists_stop`   a walk comes to the addresses of its tree, and to all;
* `Node.walk_in_order`         **a walk comes to each node once, in the order of addresses**.
-/

namespace StorySuite

def Node.at? : Node → List Nat → Option Node
  | n, [] => some n
  | n, i :: way => n.children[i]?.bind fun c => c.at? way

namespace Walk

/-! ## the loops -/

/-- **The inner loop**: to the next sibling, and up where there is none; it is over without a place
to go on from when there is no way up either. -/
inductive Climbs : Walk → Option Walk → Prop
  | sibling {w v : Walk} (right : w.nextSibling? = some v) : Climbs w (some v)
  | up {w v : Walk} {o : Option Walk} (right : w.nextSibling? = none) (parent : w.parent? = some v)
      (rest : Climbs v o) : Climbs w o
  | root {w : Walk} (right : w.nextSibling? = none) (parent : w.parent? = none) : Climbs w none

/-- **The outer loop**: the cursors that are visited, in order. -/
inductive Visits : Walk → List Walk → Prop
  | down {w v : Walk} {ws : List Walk} (child : w.firstChild? = some v) (rest : Visits v ws) :
      Visits w (w :: ws)
  | across {w v : Walk} {ws : List Walk} (leaf : w.firstChild? = none) (next : Climbs w (some v))
      (rest : Visits v ws) : Visits w (w :: ws)
  | last {w : Walk} (leaf : w.firstChild? = none) (ends : Climbs w none) : Visits w [w]

theorem climbs_climb (n : Node) (trail : List (Node × List Node)) :
    Climbs ⟨n, trail⟩ (climb n trail) := by
  induction trail generalizing n with
  | nil => exact .root rfl rfl
  | cons step above ih =>
    obtain ⟨p, cs⟩ := step
    cases cs with
    | nil => exact .up rfl rfl (ih p)
    | cons c cs => exact .sibling rfl

theorem climb_of_climbs {w : Walk} {o : Option Walk} (h : Climbs w o) :
    climb w.node w.trail = o := by
  induction h with
  | @sibling w v right =>
    obtain ⟨n, _ | ⟨⟨p, _ | ⟨c, cs⟩⟩, above⟩⟩ := w
    · cases right
    · cases right
    · exact right
  | @up w v o right parent _ ih =>
    obtain ⟨n, _ | ⟨⟨p, _ | ⟨c, cs⟩⟩, above⟩⟩ := w
    · cases parent
    · cases parent
      exact ih
    · cases right
  | @root w right parent =>
    obtain ⟨n, _ | ⟨step, above⟩⟩ := w
    · rfl
    · cases parent

theorem visits_todo (w : Walk) : Visits w w.todo := by
  generalize hk : w.todo.length = k
  induction k generalizing w with
  | zero =>
    rw [todo_eq] at hk
    cases hk
  | succ k ih =>
    rw [todo_eq] at hk ⊢
    have hclimb := climbs_climb w.node w.trail
    cases hdown : w.firstChild? with
    | some v =>
      have hnext : w.next? = some v := by rw [next?, hdown]
      rw [hnext] at hk ⊢
      exact .down hdown (ih v (Nat.succ.inj hk))
    | none =>
      have hnext : w.next? = climb w.node w.trail := by rw [next?, hdown]
      rw [← hnext] at hclimb
      cases hv : w.next? with
      | none =>
        rw [hv] at hclimb
        exact .last hdown hclimb
      | some v =>
        rw [hv] at hclimb hk
        exact .across hdown hclimb (ih v (Nat.succ.inj hk))

/-- **The loops of a walk end**, in one way only, and they visit what is to come of it. -/
theorem visits_iff {w : Walk} {ws : List Walk} : Visits w ws ↔ ws = w.todo := by
  refine ⟨fun h => ?_, fun h => h ▸ visits_todo w⟩
  induction h with
  | @down w v ws child _ ih =>
    have hnext : w.next? = some v := by rw [next?, child]
    rw [todo_eq, hnext, ih]
  | @across w v ws leaf next _ ih =>
    have hnext : w.next? = some v := by rw [next?, leaf]; exact climb_of_climbs next
    rw [todo_eq, hnext, ih]
  | @last w leaf ends =>
    have hnext : w.next? = none := by rw [next?, leaf]; exact climb_of_climbs ends
    rw [todo_eq, hnext]

/-! ## addresses -/

/-- the address of what a trail leads to -/
def addressOf : List (Node × List Node) → List Nat
  | [] => []
  | (p, cs) :: above => addressOf above ++ [p.children.length - cs.length - 1]

/-- the address of the node that the cursor stands at -/
def address (w : Walk) : List Nat := addressOf w.trail

variable {p : Node} {trail : List (Node × List Node)} {v : Walk}

theorem addressOf_child {c : Node} {cs : List Node} {i : Nat} (h : p.children.drop i = c :: cs) :
    addressOf ((p, cs) :: trail) = addressOf trail ++ [i] := by
  have hlen : p.children.length - i = cs.length + 1 := by
    rw [← List.length_drop, h, List.length_cons]
  have hi : p.children.length - cs.length - 1 = i := by omega
  rw [addressOf, hi]

theorem drop_succ {c : Node} {cs : List Node} {i : Nat} (h : p.children.drop i = c :: cs) :
    p.children.drop (i + 1) = cs := by
  rw [← List.drop_drop, h, List.drop_one, List.tail_cons]

theorem at?_child {c : Node} {cs : List Node} {i : Nat} (h : p.children.drop i = c :: cs)
    (way : List Nat) : p.at? (i :: way) = c.at? way := by
  have hi : p.children[i]? = some c := by
    rw [← List.head?_drop, h, List.head?_cons]
  rw [Node.at?, hi, Option.bind_some]

mutual

/-- a walk comes to addresses of its tree -/
theorem exists_of_mem_stops (trail : List (Node × List Node)) :
    (n : Node) → v ∈ stops trail n →
      ∃ way, v.address = addressOf trail ++ way ∧ n.at? way = some v.node
  | .mk k r s cs, h => by
    rw [stops] at h
    rcases List.mem_cons.mp h with rfl | h
    · exact ⟨[], (List.append_nil _).symm, rfl⟩
    · obtain ⟨j, way, -, ha, hat⟩ := exists_of_mem_stopsAll (.mk k r s cs) trail 0 cs rfl h
      exact ⟨j :: way, ha, hat⟩

theorem exists_of_mem_stopsAll (p : Node) (trail : List (Node × List Node)) (i : Nat) :
    (cs : List Node) → p.children.drop i = cs → v ∈ stopsAll p trail cs →
      ∃ j way, i ≤ j ∧ v.address = addressOf trail ++ j :: way ∧ p.at? (j :: way) = some v.node
  | [], _, h => by cases h
  | c :: cs, hcs, h => by
    rw [stopsAll] at h
    rcases List.mem_append.mp h with h | h
    · obtain ⟨way, ha, hat⟩ := exists_of_mem_stops ((p, cs) :: trail) c h
      refine ⟨i, way, Nat.le_refl i, ?_, by rw [at?_child hcs, hat]⟩
      rw [ha, addressOf_child hcs, List.append_assoc, List.singleton_append]
    · obtain ⟨j, way, hij, ha, hat⟩ := exists_of_mem_stopsAll p trail (i + 1) cs (drop_succ hcs) h
      exact ⟨j, way, by omega, ha, hat⟩

end

theorem mem_stopsAll {c : Node} (left : List Node) {right : List Node}
    (h : v ∈ stops ((p, right) :: trail) c) : v ∈ stopsAll p trail (left ++ c :: right) := by
  induction left with
  | nil => exact List.mem_append_left _ h
  | cons d left ih => exact List.mem_append_right _ ih

/-- a walk comes to all addresses of its tree -/
theorem exists_stop {n m : Node} {way : List Nat} (h : n.at? way = some m)
    (trail : List (Node × List Node)) :
    ∃ v ∈ stops trail n, v.address = addressOf trail ++ way ∧ v.node = m := by
  induction way generalizing n trail with
  | nil =>
    obtain rfl : n = m := Option.some.inj h
    refine ⟨⟨n, trail⟩, ?_, (List.append_nil _).symm, rfl⟩
    rw [stops_eq]
    exact List.mem_cons_self
  | cons i way ih =>
    obtain ⟨c, hc, hm⟩ := Option.bind_eq_some_iff.mp h
    obtain ⟨hi, rfl⟩ := List.getElem?_eq_some_iff.mp hc
    have hdrop : n.children.drop i = n.children[i] :: n.children.drop (i + 1) :=
      List.drop_eq_getElem_cons hi
    obtain ⟨v, hv, ha, hnode⟩ := ih hm ((n, n.children.drop (i + 1)) :: trail)
    refine ⟨v, ?_, ?_, hnode⟩
    · have hall := mem_stopsAll (n.children.take i) hv
      rw [← hdrop, List.take_append_drop] at hall
      rw [stops_eq]
      exact List.mem_cons_of_mem _ hall
    · rw [ha, addressOf_child hdrop, List.append_assoc, List.singleton_append]

mutual

/-- **Addresses ascend** along a walk. -/
theorem pairwise_stops (trail : List (Node × List Node)) :
    (n : Node) → (stops trail n).Pairwise fun v w => v.address < w.address
  | .mk k r s cs => by
    rw [stops]
    refine List.pairwise_cons.mpr ⟨fun v hv => ?_, pairwise_stopsAll _ trail 0 cs rfl⟩
    obtain ⟨j, way, -, ha, -⟩ := exists_of_mem_stopsAll (.mk k r s cs) trail 0 cs rfl hv
    have hlex : List.Lex (· < ·) (addressOf trail ++ []) (addressOf trail ++ j :: way) :=
      List.Lex.append_left _ .nil _
    rw [List.append_nil] at hlex
    rw [ha]
    exact hlex

theorem pairwise_stopsAll (p : Node) (trail : List (Node × List Node)) (i : Nat) :
    (cs : List Node) → p.children.drop i = cs →
      (stopsAll p trail cs).Pairwise fun v w => v.address < w.address
  | [], _ => List.Pairwise.nil
  | c :: cs, hcs => by
    rw [stopsAll]
    refine List.pairwise_append.mpr ⟨pairwise_stops ((p, cs) :: trail) c,
      pairwise_stopsAll p trail (i + 1) cs (drop_succ hcs), fun v hv w hw => ?_⟩
    obtain ⟨way, hv, -⟩ := exists_of_mem_stops ((p, cs) :: trail) c hv
    obtain ⟨j, way', hj, hw, -⟩ := exists_of_mem_stopsAll p trail (i + 1) cs (drop_succ hcs) hw
    rw [hv, hw, addressOf_child hcs, List.append_assoc, List.singleton_append]
    exact List.Lex.append_left _ (.rel (Nat.lt_of_succ_le hj)) _

end

end Walk

/-- **A walk comes to each node once, in order.**  Its loops end in one way only, whose cursors have
the places that are walked; these are the places of the tree by recursion.  Their addresses ascend,
so that a node comes before all below it and these before its next sibling, and they are the
addresses of the tree. -/
theorem Node.walk_in_order (n : Node) : ∃ ws : List Walk,
    (∀ vs, Walk.Visits (Walk.start n) vs ↔ vs = ws) ∧
      n.walk = ws.map Walk.place ∧ n.walk = n.places [] ∧
      (ws.map Walk.address).Pairwise (· < ·) ∧
      ∀ way m, n.at? way = some m ↔ ∃ w ∈ ws, w.address = way ∧ w.node = m := by
  have hstops : (Walk.stops [] n).map Walk.place = n.places [] := Walk.map_place_stops [] n
  refine ⟨Walk.stops [] n, fun vs => ?_, n.walk_eq_places.trans hstops.symm, n.walk_eq_places,
    List.pairwise_map.mpr (Walk.pairwise_stops [] n), fun way m => ⟨fun h => ?_, ?_⟩⟩
  · rw [← Walk.todo_start]
    exact Walk.visits_iff
  · exact Walk.exists_stop h []
  · rintro ⟨w, hw, rfl, rfl⟩
    obtain ⟨way, ha, hat⟩ := Walk.exists_of_mem_stops [] n hw
    rw [ha]
    exact hat

end StorySuite
