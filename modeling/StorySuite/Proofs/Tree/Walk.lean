import StorySuite.Tree.Walk

/-!
# What a walk visits

The cursor of `Node.walk` comes to the nodes of a tree in the order of `Node.places`: what is
still to come of a walk is the current node with all below it, and then, for each node on the
trail, what stands to the right of the way (`Walk.todo`).

* `todo_eq`           one move takes the first cursor off `todo`;
* `walk_eq_places`    **a walk visits exactly the places of its tree, in their order**;
* `mem_places_self`, `mem_places_child`   what the places of a tree are.
-/

namespace StorySuite

namespace Node

mutual

theorem length_places (above : List Node) : (n : Node) → (n.places above).length = n.count
  | mk k r s cs => by
    rw [places, count, List.length_cons, length_placesAll]

theorem length_placesAll (above : List Node) :
    (ns : List Node) → (placesAll above ns).length = countAll ns
  | [] => rfl
  | n :: ns => by
    rw [placesAll, countAll, List.length_append, length_places, length_placesAll]

end

theorem places_eq (above : List Node) (n : Node) :
    n.places above = ⟨n, above⟩ :: placesAll (n :: above) n.children := by
  cases n with
  | mk k r s cs => rw [places]; rfl

theorem placesAll_eq_flatMap (above : List Node) (ns : List Node) :
    placesAll above ns = ns.flatMap (places above) := by
  induction ns with
  | nil => rfl
  | cons n ns ih => rw [placesAll, ih]; rfl

end Node

namespace Walk

mutual

/-- the cursors at a node and at all below it, in order; `trail` leads to the node -/
def stops (trail : List (Node × List Node)) : Node → List Walk
  | .mk k r s cs => ⟨.mk k r s cs, trail⟩ :: stopsAll (.mk k r s cs) trail cs

/-- the cursors at the last children of `p` and at all below them, in order -/
def stopsAll (p : Node) (trail : List (Node × List Node)) : List Node → List Walk
  | [] => []
  | c :: cs => stops ((p, cs) :: trail) c ++ stopsAll p trail cs

end

theorem stops_eq (trail : List (Node × List Node)) (n : Node) :
    stops trail n = ⟨n, trail⟩ :: stopsAll n trail n.children := by
  cases n with
  | mk k r s cs => rw [stops]; rfl

mutual

theorem map_place_stops (trail : List (Node × List Node)) :
    (n : Node) → (stops trail n).map place = n.places (trail.map (·.1))
  | .mk k r s cs => by
    rw [stops, Node.places, List.map_cons, map_place_stopsAll]
    rfl

theorem map_place_stopsAll (p : Node) (trail : List (Node × List Node)) :
    (ns : List Node) → (stopsAll p trail ns).map place = Node.placesAll (p :: trail.map (·.1)) ns
  | [] => rfl
  | n :: ns => by
    rw [stopsAll, Node.placesAll, List.map_append, map_place_stops, map_place_stopsAll]
    rfl

end

/-- where the cursor comes to the right of the way, for each node on the trail -/
def pending : List (Node × List Node) → List Walk
  | [] => []
  | (p, cs) :: above => stopsAll p above cs ++ pending above

/-- what is to come of a walk, the cursor as it stands first -/
def todo (w : Walk) : List Walk := stops w.trail w.node ++ pending w.trail

theorem todo_start (n : Node) : (start n).todo = stops [] n := List.append_nil _

theorem pending_eq (n : Node) (trail : List (Node × List Node)) :
    pending trail = match climb n trail with
      | none => []
      | some v => todo v := by
  induction trail generalizing n with
  | nil => rfl
  | cons step above ih =>
    obtain ⟨p, cs⟩ := step
    cases cs with
    | nil => exact ih p
    | cons c cs =>
      show stopsAll p above (c :: cs) ++ pending above =
        stops ((p, cs) :: above) c ++ (stopsAll p above cs ++ pending above)
      rw [stopsAll, List.append_assoc]

/-- **One move takes the first cursor off what is to come.** -/
theorem todo_eq (w : Walk) :
    w.todo = w :: match w.next? with
      | none => []
      | some v => v.todo := by
  obtain ⟨⟨k, r, s, cs⟩, trail⟩ := w
  show stops _ _ ++ pending trail = _
  rw [stops_eq, List.cons_append]
  congr 1
  cases cs with
  | nil => exact pending_eq _ trail
  | cons c cs =>
    show stopsAll _ trail (c :: cs) ++ pending trail =
      stops _ c ++ (stopsAll _ trail cs ++ pending trail)
    rw [stopsAll, List.append_assoc]

theorem run_eq_todo {n : Nat} {w : Walk} (h : w.todo.length ≤ n) :
    run n w = w.todo.map place := by
  induction n generalizing w with
  | zero =>
    rw [todo_eq] at h
    cases h
  | succ n ih =>
    rw [todo_eq] at h ⊢
    unfold run
    rw [List.map_cons]
    congr 1
    cases hv : w.next? with
    | none => rfl
    | some v =>
      rw [hv, List.length_cons] at h
      exact ih (Nat.le_of_succ_le_succ h)

end Walk

namespace Node

/-- **A walk visits exactly the places of its tree, in their order.** -/
theorem walk_eq_places (n : Node) : n.walk = n.places [] := by
  have h : (Walk.start n).todo.map Walk.place = n.places [] := by
    rw [Walk.todo_start]
    exact Walk.map_place_stops [] n
  have hlen : (Walk.start n).todo.length ≤ n.count :=
    Nat.le_of_eq (by rw [← List.length_map Walk.place, h, length_places])
  rw [walk, Walk.run_eq_todo hlen, h]

/-! ## the places of a tree -/

theorem mem_places_self (above : List Node) (n : Node) : ⟨n, above⟩ ∈ n.places above := by
  rw [places_eq]
  exact List.mem_cons_self

theorem mem_placesAll {above ns : List Node} {p : Place} :
    p ∈ placesAll above ns ↔ ∃ n ∈ ns, p ∈ n.places above := by
  rw [placesAll_eq_flatMap]
  exact List.mem_flatMap

mutual

theorem mem_places_child' {p : Place} {c : Node} (hc : c ∈ p.node.children) (above : List Node) :
    (n : Node) → p ∈ n.places above → ⟨c, p.node :: p.ancestors⟩ ∈ n.places above
  | mk k r s cs, h => by
    rw [places_eq] at h ⊢
    rcases List.mem_cons.mp h with rfl | h
    · exact List.mem_cons_of_mem _ (mem_placesAll.mpr ⟨c, hc, mem_places_self _ _⟩)
    · exact List.mem_cons_of_mem _ (mem_placesAll_child hc _ cs h)

theorem mem_placesAll_child {p : Place} {c : Node} (hc : c ∈ p.node.children)
    (above : List Node) :
    (ns : List Node) → p ∈ placesAll above ns → ⟨c, p.node :: p.ancestors⟩ ∈ placesAll above ns
  | [], h => by cases h
  | n :: ns, h => by
    rw [placesAll] at h ⊢
    rcases List.mem_append.mp h with h | h
    · exact List.mem_append_left _ (mem_places_child' hc above n h)
    · exact List.mem_append_right _ (mem_placesAll_child hc above ns h)

end

/-- the children of a place are places of the tree -/
theorem mem_places_child {p : Place} {c n : Node} {above : List Node}
    (h : p ∈ n.places above) (hc : c ∈ p.node.children) :
    ⟨c, p.node :: p.ancestors⟩ ∈ n.places above :=
  mem_places_child' hc above n h

end Node

end StorySuite
