import StorySuite.Proofs.Patch.Rendering

/-!
# What a patch refuses

An edit is refused for its own offsets or for what was accepted before it.  The latter is told
from the requests alone: each accepted one replaces a range, inserts at a place or, if it changes
nothing, does neither.

* `Request.range?`, `Request.place?`   the range that a request replaces, the place it inserts at;
* `Request.refusal?`      **what is said of a request** behind such ranges and places;
* `conflict_view`         a conflict, found among what a view shows of the edits;
* `make_makeEach`         **when a request is refused, with which words, and that nothing comes of it**;
* `overwrite_names_overlap`   ranges are looked at before places, whatever came first.
-/

namespace StorySuite

namespace Edit

def range? : Edit → Option (Nat × Nat)
  | insert _ _ => none
  | replace a b _ => some (a, b)

def place? : Edit → Option Nat
  | insert n _ => some n
  | replace _ _ _ => none

end Edit

namespace Patch

/-- **The range of `t` that a request replaces**, unless it keeps what stands there. -/
def Request.range? (t : Text) : Request → Option (Nat × Nat)
  | .overwrite a b s => if t.slice a b <:+ s then none else some (a, b)
  | _ => none

/-- **The place of `t` at which a request inserts**, an overwrite among them that keeps what stands
there and adds to it. -/
def Request.place? (t : Text) : Request → Option Nat
  | .insert n _ => some n
  | .append _ => some t.size
  | .overwrite a b s => if t.slice a b <:+ s ∧ t.slice a b ≠ s then some a else none

/-! ## what is said of a request -/

/-- an offset that is no place to cut `t` at -/
def offsetRefusal? (t : Text) (n : Nat) : Option Refusal :=
  if t.isBoundary n then none else some (.noBoundary n t.size)

/-- the first range that has byte `n` inside it -/
def insideRefusal? (ranges : List (Nat × Nat)) (n : Nat) : Option Refusal :=
  (ranges.find? fun r => r.1 < n && n < r.2).map fun r => .insideReplaced n r.1 r.2

/-- the first range that shares a byte with the range from `a` to `b` -/
def overlapRefusal? (ranges : List (Nat × Nat)) (a b : Nat) : Option Refusal :=
  (ranges.find? fun r => r.1 < b && a < r.2).map fun r => .overlap a b r.1 r.2

/-- the first place inside the range from `a` to `b` -/
def swallowRefusal? (places : List Nat) (a b : Nat) : Option Refusal :=
  (places.find? fun n => a < n && n < b).map fun n => .swallowsInsert a b n

/-- what is said of an overwrite whose offsets are good -/
def changeRefusal? (t : Text) (ranges : List (Nat × Nat)) (places : List Nat) (a b : Nat)
    (s : Text) : Option Refusal :=
  if t.slice a b = s then none
  else if t.slice a b <:+ s then insideRefusal? ranges a
  else (overlapRefusal? ranges a b).or (swallowRefusal? places a b)

/-- **What is said of a request** where `ranges` are replaced already and `places` inserted at:
its own offsets come first, then the ranges, then the places. -/
def Request.refusal? (t : Text) (ranges : List (Nat × Nat)) (places : List Nat) :
    Request → Option Refusal
  | .insert n _ => (offsetRefusal? t n).or (insideRefusal? ranges n)
  | .append _ => insideRefusal? ranges t.size
  | .overwrite a b s =>
    if b < a then some (.reversed a b)
    else (offsetRefusal? t a).or
      ((offsetRefusal? t b).or (changeRefusal? t ranges places a b s))

/-- the outcome of an edit of which `x` is said -/
def outcome {α : Type} (x : Option Refusal) (a : α) : Except Refusal α :=
  match x with
  | some r => .error r
  | none => .ok a

theorem outcome_eq_error {α : Type} {x : Option Refusal} {a : α} :
    (∃ r, outcome x a = .error r) ↔ x.isSome = true := by
  cases x with
  | none => simp [outcome]
  | some r => simp [outcome]

theorem outcome_pure {α : Type} (x : Option Refusal) (a : α) :
    (outcome x () >>= fun _ => pure a) = outcome x a := by
  cases x <;> rfl

theorem outcome_or {α : Type} (x y : Option Refusal) (a : α) :
    outcome (x.or y) a = outcome x () >>= fun _ => outcome y a := by
  cases x <;> rfl

/-! ## the requests behind the edits -/

variable {t : Text} {p : Patch}

/-- an overwrite that changes something drops its tail for good -/
theorem dropTail?_eq_none {tail s : Text} : Text.dropTail? tail s = none ↔ ¬ tail <:+ s := by
  rw [Option.eq_none_iff_forall_ne_some]
  constructor
  · rintro h ⟨u, hu⟩
    exact h u (Text.dropTail?_eq_some.mpr hu.symm)
  · intro h u hu
    exact h ⟨u, (Text.dropTail?_eq_some.mp hu).symm⟩

theorem dropTail?_eq_cons {tail s u : Text} {c : Char} (h : Text.dropTail? tail s = some (c :: u)) :
    tail <:+ s ∧ tail ≠ s := by
  have hs := Text.dropTail?_eq_some.mp h
  refine ⟨⟨c :: u, hs.symm⟩, ?_⟩
  intro h0
  have hlen := congrArg List.length (h0.trans hs)
  rw [List.length_append, List.length_cons] at hlen
  omega

theorem range?_edits (t : Text) (r : Request) :
    (r.edits t).filterMap Edit.range? = (r.range? t).toList := by
  cases r with
  | insert n s => rfl
  | append s => rfl
  | overwrite a b s =>
    show (Edit.ofOverwrite t a b s).filterMap _ = (if _ then _ else _ : Option _).toList
    unfold Edit.ofOverwrite
    cases h : Text.dropTail? (t.slice a b) s with
    | none =>
      rw [if_neg (dropTail?_eq_none.mp h)]
      rfl
    | some u =>
      rw [if_pos ⟨u, (Text.dropTail?_eq_some.mp h).symm⟩]
      cases u <;> rfl

theorem place?_edits (t : Text) (r : Request) :
    (r.edits t).filterMap Edit.place? = (r.place? t).toList := by
  cases r with
  | insert n s => rfl
  | append s => rfl
  | overwrite a b s =>
    show (Edit.ofOverwrite t a b s).filterMap _ = (if _ then _ else _ : Option _).toList
    unfold Edit.ofOverwrite
    cases h : Text.dropTail? (t.slice a b) s with
    | none =>
      rw [if_neg fun h' => dropTail?_eq_none.mp h h'.1]
      rfl
    | some u =>
      cases u with
      | nil =>
        rw [if_neg fun h' => h'.2 (Text.dropTail?_eq_some.mp h).symm]
        rfl
      | cons c u =>
        rw [if_pos (dropTail?_eq_cons h)]
        rfl

/-- what a view shows of the edits of requests -/
theorem filterMap_edits {β : Type} {view : Edit → Option β} {f : Request → Option β}
    (h : ∀ r : Request, (r.edits t).filterMap view = (f r).toList) (rs : List Request) :
    (rs.flatMap (Request.edits t)).filterMap view = rs.filterMap f := by
  induction rs with
  | nil => rfl
  | cons r rs ih =>
    rw [List.flatMap_cons, List.filterMap_append, h, ih, List.filterMap_cons]
    cases f r <;> rfl

/-! ## conflicts -/

/-- **A conflict is found among what a view shows of the edits.** -/
theorem conflict_view {β : Type} (view : Edit → Option β) (q : β → Bool) (named : β → Refusal)
    {f : Edit → Bool} {refusal : Edit → Refusal} (hf : ∀ e, f e = (view e).any q)
    (hr : ∀ e b, view e = some b → refusal e = named b) :
    p.conflict f refusal = outcome (((p.edits.filterMap view).find? q).map named) () := by
  have hfind : f = fun e => (view e).any q := funext hf
  rw [conflict, List.find?_filterMap, ← hfind]
  cases h : p.edits.find? f with
  | none => rfl
  | some e =>
    have he := List.find?_some h
    rw [hf] at he
    obtain ⟨b, hb, -⟩ := (Option.any_eq_true _ _).mp he
    show Except.error (refusal e) = outcome ((view e).map named) ()
    rw [hb, hr e b hb]
    rfl

theorem checkOffset_eq (p : Patch) (n : Nat) :
    p.checkOffset n = outcome (offsetRefusal? p.text n) () := by
  unfold checkOffset offsetRefusal?
  split <;> rfl

theorem insert_eq_outcome (p : Patch) (n : Nat) (s : Text) :
    p.insert n s = outcome ((offsetRefusal? p.text n).or
      (insideRefusal? (p.edits.filterMap Edit.range?) n)) (p.push (.insert n s)) := by
  unfold Patch.insert
  rw [checkOffset_eq, conflict_view Edit.range? (fun r => r.1 < n && n < r.2)
    (fun r => .insideReplaced n r.1 r.2), outcome_pure, outcome_or]
  · rfl
  · intro e
    cases e <;> rfl
  · intro e r h
    cases e with
    | insert k u => cases h
    | replace a b u =>
      cases h
      rfl

/-- an overwrite whose offsets are good -/
theorem change_eq (p : Patch) {a b : Nat} {s : Text} (ha : offsetRefusal? p.text a = none) :
    (match Text.dropTail? (p.text.slice a b) s with
      | some [] => pure p
      | some added => p.insert a added
      | none => do
        p.conflict (·.overlaps a b) fun
          | .replace c d _ => .overlap a b c d
          | .insert q _ => .overlap a b q q
        p.conflict (·.insertsInside a b) fun e => .swallowsInsert a b e.start
        return p.push (.replace a b s)) =
      outcome (changeRefusal? p.text (p.edits.filterMap Edit.range?)
        (p.edits.filterMap Edit.place?) a b s) (p.extend (Edit.ofOverwrite p.text a b s)) := by
  unfold changeRefusal? Edit.ofOverwrite
  cases h : Text.dropTail? (p.text.slice a b) s with
  | none =>
    have hs := dropTail?_eq_none.mp h
    have hne : p.text.slice a b ≠ s := by
      rintro rfl
      exact hs (List.suffix_refl _)
    rw [if_neg hne, if_neg hs, outcome_or]
    dsimp only
    rw [conflict_view Edit.range? (fun r => r.1 < b && a < r.2) (fun r => .overlap a b r.1 r.2),
      conflict_view Edit.place? (fun n => a < n && n < b) (fun n => .swallowsInsert a b n),
      outcome_pure]
    · rfl
    · intro e
      cases e <;> rfl
    · intro e n hn
      cases e with
      | insert k u =>
        cases hn
        rfl
      | replace c d u => cases hn
    · intro e
      cases e <;> rfl
    · intro e r hr
      cases e with
      | insert k u => cases hr
      | replace c d u =>
        cases hr
        rfl
  | some u =>
    cases u with
    | nil =>
      have hs : s = p.text.slice a b := Text.dropTail?_eq_some.mp h
      rw [if_pos hs.symm]
      show pure p = outcome none (p.extend [])
      rw [extend, List.append_nil]
      rfl
    | cons c u =>
      obtain ⟨hs, hne⟩ := dropTail?_eq_cons h
      rw [if_neg hne, if_pos hs]
      show p.insert a (c :: u) = _
      rw [insert_eq_outcome, ha, Option.none_or]
      rfl

theorem overwrite_eq_outcome (p : Patch) (a b : Nat) (s : Text) :
    p.overwrite a b s = outcome (Request.refusal? p.text (p.edits.filterMap Edit.range?)
      (p.edits.filterMap Edit.place?) (.overwrite a b s))
        (p.extend (Edit.ofOverwrite p.text a b s)) := by
  unfold Patch.overwrite Request.refusal?
  dsimp only
  by_cases hab : b < a
  · rw [if_pos hab, if_pos hab]
    rfl
  rw [if_neg hab, if_neg hab, checkOffset_eq, checkOffset_eq, outcome_or, outcome_or]
  cases ha : offsetRefusal? p.text a with
  | some x => rfl
  | none =>
    cases hb : offsetRefusal? p.text b with
    | some x => rfl
    | none => exact change_eq p ha

/-- **What comes of a request**, told from the edits on record. -/
theorem make_eq_outcome (p : Patch) (r : Request) :
    p.make r = outcome (r.refusal? p.text (p.edits.filterMap Edit.range?)
      (p.edits.filterMap Edit.place?)) (p.extend (r.edits p.text)) := by
  cases r with
  | insert n s => exact insert_eq_outcome p n s
  | append s =>
    have hend : offsetRefusal? p.text p.text.size = none := if_pos (Text.isBoundary_size p.text)
    have h := insert_eq_outcome p p.text.size s
    rw [hend, Option.none_or] at h
    exact h
  | overwrite a b s => exact overwrite_eq_outcome p a b s

/-! ## what is asked of a request -/

theorem offsetRefusal?_isSome {t : Text} {n : Nat} :
    (offsetRefusal? t n).isSome = true ↔ t.isBoundary n = false := by
  unfold offsetRefusal?
  cases t.isBoundary n <;> simp

theorem insideRefusal?_isSome {ranges : List (Nat × Nat)} {n : Nat} :
    (insideRefusal? ranges n).isSome = true ↔ ∃ r ∈ ranges, r.1 < n ∧ n < r.2 := by
  simp [insideRefusal?]

theorem overlapRefusal?_isSome {ranges : List (Nat × Nat)} {a b : Nat} :
    (overlapRefusal? ranges a b).isSome = true ↔ ∃ r ∈ ranges, r.1 < b ∧ a < r.2 := by
  simp [overlapRefusal?]

theorem swallowRefusal?_isSome {places : List Nat} {a b : Nat} :
    (swallowRefusal? places a b).isSome = true ↔ ∃ n ∈ places, a < n ∧ n < b := by
  simp [swallowRefusal?]

/-- two ranges that are not empty share a byte if neither ends before the other begins -/
theorem exists_shared {a b c d : Nat} (hab : a < b) (hcd : c < d) :
    (c < b ∧ a < d) ↔ ∃ n, (a ≤ n ∧ n < b) ∧ c ≤ n ∧ n < d := by
  constructor
  · intro h
    exact ⟨max a c, by omega, by omega⟩
  · rintro ⟨n, h1, h2⟩
    omega

/-- the ranges on record are not empty -/
theorem Sound.range_pos (hp : p.Sound) {r : Nat × Nat} (h : r ∈ p.edits.filterMap Edit.range?) :
    r.1 < r.2 := by
  obtain ⟨e, he, hr⟩ := List.mem_filterMap.mp h
  cases e with
  | insert n s => cases hr
  | replace a b s =>
    cases hr
    exact (hp.fits _ he).2.2

/-- a range that is cut out between boundaries is empty only if nothing can be changed in it -/
theorem lt_of_not_suffix {a b : Nat} {s : Text} (hab : ¬ b < a) (h : ¬ t.slice a b <:+ s) :
    a < b := by
  rcases Nat.lt_or_ge a b with hlt | hge
  · exact hlt
  · exfalso
    obtain rfl : a = b := by omega
    rw [Text.slice_self] at h
    exact h (List.nil_suffix)

theorem insert_refused_iff (p : Patch) (n : Nat) (s : Text) :
    (∃ x, p.insert n s = .error x) ↔ (p.text.size < n ∨ p.text.isBoundary n = false) ∨
      ∃ r ∈ p.edits.filterMap Edit.range?, r.1 < n ∧ n < r.2 := by
  have hbeyond : p.text.size < n → p.text.isBoundary n = false := by
    intro h
    apply Bool.eq_false_iff.mpr
    intro hb
    exact absurd (Text.le_size hb) (Nat.not_le.mpr h)
  rw [insert_eq_outcome, outcome_eq_error, Option.isSome_or, Bool.or_eq_true, offsetRefusal?_isSome,
    insideRefusal?_isSome, or_iff_right_of_imp hbeyond]

theorem Sound.overwrite_refused_iff (hp : p.Sound) (a b : Nat) (s : Text) :
    (∃ x, p.overwrite a b s = .error x) ↔
      b < a ∨ p.text.isBoundary a = false ∨ p.text.isBoundary b = false ∨
        (p.text.slice a b <:+ s ∧ p.text.slice a b ≠ s ∧
          ∃ r ∈ p.edits.filterMap Edit.range?, r.1 < a ∧ a < r.2) ∨
        (¬ p.text.slice a b <:+ s ∧
          ((∃ r ∈ p.edits.filterMap Edit.range?, ∃ n, (a ≤ n ∧ n < b) ∧ r.1 ≤ n ∧ n < r.2) ∨
            ∃ n ∈ p.edits.filterMap Edit.place?, a < n ∧ n < b)) := by
  rw [overwrite_eq_outcome, outcome_eq_error]
  unfold Request.refusal?
  dsimp only
  by_cases hab : b < a
  · simp [hab]
  rw [if_neg hab, Option.isSome_or, Option.isSome_or, Bool.or_eq_true, Bool.or_eq_true,
    offsetRefusal?_isSome, offsetRefusal?_isSome, or_iff_right hab]
  apply or_congr_right
  apply or_congr_right
  unfold changeRefusal?
  by_cases heq : p.text.slice a b = s
  · rw [if_pos heq]
    simp [heq]
  by_cases hs : p.text.slice a b <:+ s
  · -- it inserts at its start, where ranges alone can be in the way
    rw [if_neg heq, if_pos hs, insideRefusal?_isSome]
    simp [heq, hs]
  · rw [if_neg heq, if_neg hs, Option.isSome_or, Bool.or_eq_true, overlapRefusal?_isSome,
      swallowRefusal?_isSome]
    have hshared : (∃ r ∈ p.edits.filterMap Edit.range?, r.1 < b ∧ a < r.2) ↔
        ∃ r ∈ p.edits.filterMap Edit.range?, ∃ n, (a ≤ n ∧ n < b) ∧ r.1 ≤ n ∧ n < r.2 :=
      exists_congr fun r => and_congr_right fun hr =>
        exists_shared (lt_of_not_suffix hab hs) (hp.range_pos hr)
    rw [hshared]
    simp [hs]

/-! ## histories -/

theorem makeEach_append (p : Patch) (rs : List Request) (r : Request) :
    p.makeEach (rs ++ [r]) = ((p.makeEach rs).make r).toOption.getD (p.makeEach rs) := by
  induction rs generalizing p with
  | nil =>
    rw [List.nil_append]
    unfold makeEach makeEach
    cases p.make r <;> rfl
  | cons r' rs ih =>
    rw [List.cons_append]
    unfold makeEach
    cases p.make r' with
    | error x => exact ih p
    | ok q => exact ih q

/-- **What is refused behind a history of requests, and that nothing comes of it.**  Of the
accepted requests the ranges that they replace and the places that they insert at decide, in the
order in which they came.  An insertion is refused exactly for an offset that is no boundary or
lies inside such a range; an overwrite exactly for its own offsets, or, if it keeps what stands
there and adds to it, for a range around its start, or, if it replaces something, for a range with
which it shares a byte or a place inside it.  The refusal names the first such range, and the first
such place only where there is no such range.  A refused request leaves the patch as it is, and
the patch is that of the accepted requests alone. -/
theorem make_makeEach (t : Text) (rs : List Request) :
    let p := (ofText t).makeEach rs
    let done := accepted (ofText t) rs
    let ranges := done.filterMap (Request.range? t)
    let places := done.filterMap (Request.place? t)
    (∀ n s, (∃ x, p.insert n s = .error x) ↔
      (t.size < n ∨ t.isBoundary n = false) ∨ ∃ r ∈ ranges, r.1 < n ∧ n < r.2) ∧
    (∀ a b s, (∃ x, p.overwrite a b s = .error x) ↔
      b < a ∨ t.isBoundary a = false ∨ t.isBoundary b = false ∨
        (t.slice a b <:+ s ∧ t.slice a b ≠ s ∧ ∃ r ∈ ranges, r.1 < a ∧ a < r.2) ∨
        (¬ t.slice a b <:+ s ∧
          ((∃ r ∈ ranges, ∃ n, (a ≤ n ∧ n < b) ∧ r.1 ≤ n ∧ n < r.2) ∨
            ∃ n ∈ places, a < n ∧ n < b))) ∧
    (∀ r, p.make r = outcome (r.refusal? t ranges places) (p.extend (r.edits t))) ∧
    (∀ r, (ofText t).makeEach (rs ++ [r]) = (p.make r).toOption.getD p) ∧
    ∃ q, (ofText t).makeAll done = .ok q ∧ q.chunks = p.chunks ∧ q.render = p.render := by
  intro p done ranges places
  obtain ⟨hsound, htext⟩ : p.Sound ∧ p.text = t := (sound_ofText t).makeEach
  have hedits : p.edits = done.flatMap (Request.edits t) := (sound_ofText t).edits_makeEach
  have hranges : p.edits.filterMap Edit.range? = ranges := by
    rw [hedits]
    exact filterMap_edits (range?_edits t) done
  have hplaces : p.edits.filterMap Edit.place? = places := by
    rw [hedits]
    exact filterMap_edits (place?_edits t) done
  refine ⟨?_, ?_, ?_, ?_, ?_⟩
  · intro n s
    have h := insert_refused_iff p n s
    rwa [htext, hranges] at h
  · intro a b s
    have h := hsound.overwrite_refused_iff a b s
    rwa [htext, hranges, hplaces] at h
  · intro r
    have h := make_eq_outcome p r
    rwa [htext, hranges, hplaces] at h
  · exact makeEach_append _ rs
  · exact ⟨p, makeAll_accepted _ rs, rfl, rfl⟩

/-- **A range is named before a place that came first**: here the insertion at byte 3 is the first
edit that stands in the way, and the range behind it is named. -/
theorem overwrite_names_overlap :
    ∃ p, (ofText "abcdef".toList).makeAll [.insert 3 "x".toList, .overwrite 4 6 "y".toList] = .ok p ∧
      p.edits.find? (fun e => e.overlaps 2 5 || e.insertsInside 2 5) = some (.insert 3 "x".toList) ∧
      p.overwrite 2 5 "z".toList = .error (.overlap 2 5 4 6) := by
  refine ⟨_, rfl, ?_, ?_⟩
  · decide
  · rfl

end Patch

end StorySuite
