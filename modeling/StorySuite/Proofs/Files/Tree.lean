import Mathlib.Data.Char
import Mathlib.Data.List.Lex
import Mathlib.Data.List.Sort
import StorySuite.Files.Tree
import StorySuite.Proofs.Path.Steps

/-!
# Ways through file trees

What a tree holds is told by what stands at the end of each way, and this is what an entry that is
put somewhere changes.

* `Entry.stand? way e`   what stands at the end of a way, but not what is in it;
* `stand?_put`           **an entry that is put at the end of a way changes this way alone**;
* `Entry.Proper`         names in order, each the name of an entry;
* `Entry.ways e`         the ways to all files, in order;
* `ext`                  **proper trees are told apart by what stands in them**.
-/

namespace StorySuite

/-- what stands at the end of a way -/
inductive Stand where
  | directory
  | file (c : Content)
  deriving DecidableEq, Repr

namespace Entry

def stand : Entry → Stand
  | file c => .file c
  | directory _ => .directory

def stand? (way : List Text) (e : Entry) : Option Stand := (e.get? way).map stand

/-- a tree is a file, or a directory of trees -/
theorem tree_induction {P : Entry → Prop} (leaf : ∀ c, P (file c))
    (node : ∀ es, (∀ x ∈ es, P x.2) → P (directory es)) : ∀ e, P e
  | file c => leaf c
  | directory es => node es fun x _ => tree_induction leaf node x.2
termination_by e => sizeOf e
decreasing_by
  have h := List.sizeOf_lt_of_mem ‹x ∈ es›
  cases x
  simp only [Prod.mk.sizeOf_spec] at h
  simp only [directory.sizeOf_spec]
  omega

/-! ## one step -/

theorem child?_cons (x : Text × Entry) (es : List (Text × Entry)) (n : Text) :
    (directory (x :: es)).child? n = if x.1 = n then some x.2 else (directory es).child? n := by
  by_cases h : x.1 = n <;> simp [child?, entries, h]

theorem child?_entries (n : Text) (e : Entry) : (directory e.entries).child? n = e.child? n := rfl

theorem child?_set (n m : Text) (f : Entry) (es : List (Text × Entry)) :
    (directory (set n f es)).child? m = if m = n then some f else (directory es).child? m := by
  induction es with
  | nil =>
    rw [set, child?_cons]
    by_cases h : m = n
    · rw [if_pos h, if_pos h.symm]
    · rw [if_neg h, if_neg (Ne.symm h)]
  | cons x es ih =>
    obtain ⟨k, e⟩ := x
    rw [set]
    split
    · next hk =>
      subst hk
      rw [child?_cons, child?_cons]
      by_cases h : m = k
      · rw [if_pos h, if_pos h.symm]
      · rw [if_neg h, if_neg (Ne.symm h), if_neg (Ne.symm h)]
    · next hk =>
      split
      · rw [child?_cons]
        by_cases h : m = n
        · rw [if_pos h, if_pos h.symm]
        · rw [if_neg h, if_neg (Ne.symm h)]
      · rw [child?_cons, child?_cons, ih]
        by_cases h : k = m
        · rw [if_pos h, if_pos h, if_neg (h ▸ hk)]
        · rw [if_neg h, if_neg h]

theorem stand?_cons (n : Text) (ns : List Text) (e : Entry) :
    e.stand? (n :: ns) = (e.child? n).bind (stand? ns) := by
  rw [stand?, get?, Option.map_bind]
  rfl

theorem stand?_nil (e : Entry) : e.stand? [] = some e.stand := rfl

/-! ## an entry that is put somewhere -/

/-- an entry with nothing in it -/
def Bare (f : Entry) : Prop := ∀ n ns, f.stand? (n :: ns) = none

theorem bare_file (c : Content) : Bare (file c) := fun _ _ => rfl

theorem bare_empty : Bare empty := fun _ _ => rfl

/-- a way that leads from a directory to a bare entry or to nothing -/
structure Room (e : Entry) (way : List Text) : Prop where
  parent : ∀ dir n, way = dir ++ [n] → e.stand? dir = some .directory
  bare : ∀ n ns, e.stand? (way ++ n :: ns) = none

theorem Room.isDirectory {e : Entry} {n : Text} {ns : List Text} (h : Room e (n :: ns)) :
    e.isDirectory = true := by
  obtain ⟨dir, m, hd⟩ := (List.eq_nil_or_concat' (n :: ns)).resolve_left (List.cons_ne_nil _ _)
  have hs := h.parent dir m hd
  cases e with
  | directory es => rfl
  | file c =>
    cases dir with
    | nil => cases hs
    | cons k dir => cases hs

/-- a way goes on from where its first step leads -/
theorem Room.child {e : Entry} {n : Text} {ns : List Text} (h : Room e (n :: ns)) :
    Room ((e.child? n).getD empty) ns := by
  constructor
  · rintro dir m rfl
    have hs := h.parent (n :: dir) m rfl
    rw [stand?_cons] at hs
    cases hc : e.child? n with
    | none => rw [hc] at hs; cases hs
    | some c => rwa [hc] at hs
  · intro m ms
    have hs := h.bare m ms
    rw [List.cons_append, stand?_cons] at hs
    cases hc : e.child? n with
    | none =>
      cases ns <;> rfl
    | some c => rwa [hc] at hs

/-- **An entry that is put at the end of a way changes this way alone.** -/
theorem stand?_put {e f : Entry} {way : List Text} (h : Room e way) (hf : Bare f)
    (way' : List Text) :
    (e.put way f).stand? way' = if way' = way then some f.stand else e.stand? way' := by
  induction way generalizing e way' with
  | nil =>
    cases way' with
    | nil => rfl
    | cons m ms =>
      rw [put, hf m ms, if_neg (List.cons_ne_nil _ _)]
      exact (h.bare m ms).symm
  | cons n ns ih =>
    cases way' with
    | nil =>
      rw [if_neg (List.cons_ne_nil _ _).symm, stand?_nil, stand?_nil]
      have hd := h.isDirectory
      cases e with
      | file c => cases hd
      | directory es => rfl
    | cons m ms =>
      rw [put, stand?_cons, child?_set, stand?_cons]
      by_cases hm : m = n
      · subst hm
        rw [if_pos rfl, Option.bind_some, ih h.child]
        by_cases hms : ms = ns
        · rw [if_pos hms, if_pos (by rw [hms])]
        · rw [if_neg hms, if_neg fun e => hms (List.cons.inj e).2]
          cases hc : e.child? m with
          | some c => rfl
          | none =>
            -- nothing but the entry itself is made
            cases ms with
            | cons k ks => rfl
            | nil =>
              obtain ⟨dir, k, rfl⟩ := (List.eq_nil_or_concat' ns).resolve_left (Ne.symm hms)
              have hs := h.parent (m :: dir) k rfl
              rw [stand?_cons, hc] at hs
              cases hs
      · rw [if_neg hm, if_neg fun e => hm (List.cons.inj e).1, child?_entries]

theorem get?_cons (n : Text) (ns : List Text) (e : Entry) :
    e.get? (n :: ns) = (e.child? n).bind (get? ns) := rfl

theorem get?_append (a b : List Text) (e : Entry) :
    e.get? (a ++ b) = (e.get? a).bind (get? b) := by
  induction a generalizing e with
  | nil => rfl
  | cons n a ih =>
    rw [List.cons_append, get?_cons, get?_cons, Option.bind_assoc]
    exact congrArg _ (funext fun c => ih c)

theorem stand?_append {dir : List Text} {e f : Entry} (h : e.get? dir = some f) (ns : List Text) :
    e.stand? (dir ++ ns) = f.stand? ns := by
  rw [stand?, get?_append, h]
  rfl

theorem stand?_singleton (n : Text) (e : Entry) : e.stand? [n] = (e.child? n).map stand := by
  rw [stand?_cons]
  cases e.child? n <;> rfl

/-- what leads anywhere leads through directories -/
theorem stand?_of_append {a b : List Text} {e : Entry} {s : Stand} (hb : b ≠ [])
    (h : e.stand? (a ++ b) = some s) : e.stand? a = some .directory := by
  obtain ⟨f, hf, -⟩ := Option.map_eq_some_iff.mp h
  rw [get?_append] at hf
  obtain ⟨g, hg, hf⟩ := Option.bind_eq_some_iff.mp hf
  rw [stand?, hg]
  cases g with
  | directory es => rfl
  | file c =>
    cases b with
    | nil => exact absurd rfl hb
    | cons n ns => cases hf

/-- where something may be put beside nothing -/
theorem Room.of_parent {e : Entry} {dir : List Text} {n : Text} (hd : e.stand? dir = some .directory)
    (hn : e.stand? (dir ++ [n]) = none) : Room e (dir ++ [n]) where
  parent dir' n' h := by
    obtain ⟨rfl, -⟩ := List.append_inj' h rfl
    exact hd
  bare m ms := by
    cases hs : e.stand? (dir ++ [n] ++ m :: ms) with
    | none => rfl
    | some s =>
      rw [stand?_of_append (List.cons_ne_nil _ _) hs] at hn
      cases hn

theorem Room.of_file {e : Entry} {way : List Text} {c : Content}
    (h : e.stand? way = some (.file c)) : Room e way where
  parent dir n hw := by
    rw [hw] at h
    exact stand?_of_append (List.cons_ne_nil _ _) h
  bare m ms := by
    cases hs : e.stand? (way ++ m :: ms) with
    | none => rfl
    | some s =>
      rw [stand?_of_append (List.cons_ne_nil _ _) hs] at h
      cases h

/-! ## names in order -/

theorem before_iff {s t : Text} : before s t = true ↔ s < t := by
  induction s generalizing t with
  | nil => cases t <;> simp [before]
  | cons a s ih => cases t with
    | nil => simp [before]
    | cons b t => simp [before, ih, List.cons_lt_cons_iff]

/-- names in order, each the name of an entry -/
def Proper (e : Entry) : Prop :=
  ∀ way es, e.get? way = some (directory es) →
    es.Pairwise (fun a b => a.1 < b.1) ∧ ∀ x ∈ es, Path.IsName x.1

theorem proper_file (c : Content) : Proper (file c) := by
  intro way es h
  cases way with
  | nil => cases h
  | cons n ns => cases h

theorem child?_of_mem {es : List (Text × Entry)} (h : es.Pairwise fun a b => a.1 < b.1)
    {x : Text × Entry} (hx : x ∈ es) : (directory es).child? x.1 = some x.2 := by
  induction es with
  | nil => cases hx
  | cons y es ih =>
    obtain ⟨hy, h⟩ := List.pairwise_cons.mp h
    rcases List.mem_cons.mp hx with rfl | hx
    · rw [child?_cons, if_pos rfl]
    · rw [child?_cons, if_neg (ne_of_lt (hy x hx)), ih h hx]

theorem mem_of_child? {es : List (Text × Entry)} {n : Text} {c : Entry}
    (h : (directory es).child? n = some c) : (n, c) ∈ es := by
  obtain ⟨x, hx, rfl⟩ := Option.map_eq_some_iff.mp h
  obtain rfl : x.1 = n := by simpa using List.find?_some hx
  exact List.mem_of_find?_eq_some hx

theorem Proper.child {e c : Entry} {n : Text} (h : Proper e) (hc : e.child? n = some c) :
    Proper c := fun way es hw => h (n :: way) es (by rw [get?_cons, hc]; exact hw)

theorem proper_directory {es : List (Text × Entry)} : Proper (directory es) ↔
    es.Pairwise (fun a b => a.1 < b.1) ∧ ∀ x ∈ es, Path.IsName x.1 ∧ Proper x.2 := by
  constructor
  · intro h
    obtain ⟨ho, hn⟩ := h [] es rfl
    exact ⟨ho, fun x hx => ⟨hn x hx, h.child (child?_of_mem ho hx)⟩⟩
  · rintro ⟨ho, hn⟩ way fs hw
    cases way with
    | nil =>
      obtain rfl : es = fs := by simpa [get?] using hw
      exact ⟨ho, fun x hx => (hn x hx).1⟩
    | cons n ns =>
      obtain ⟨c, hc, hw⟩ := Option.bind_eq_some_iff.mp hw
      exact (hn _ (mem_of_child? hc)).2 ns fs hw

theorem proper_empty : Proper empty := proper_directory.mpr ⟨List.Pairwise.nil, nofun⟩

theorem mem_set {n : Text} {f : Entry} {es : List (Text × Entry)} {x : Text × Entry}
    (h : x ∈ set n f es) : x = (n, f) ∨ x ∈ es := by
  induction es with
  | nil => exact Or.inl (List.mem_singleton.mp h)
  | cons p es ih =>
    rw [set] at h
    split at h
    · next hk =>
      rw [hk] at h
      exact (List.mem_cons.mp h).imp id (List.mem_cons_of_mem _)
    · split at h
      · exact List.mem_cons.mp h
      · rcases List.mem_cons.mp h with rfl | h
        · exact Or.inr List.mem_cons_self
        · exact (ih h).imp id (List.mem_cons_of_mem _)

theorem pairwise_set {n : Text} {f : Entry} {es : List (Text × Entry)}
    (h : es.Pairwise fun a b => a.1 < b.1) : (set n f es).Pairwise fun a b => a.1 < b.1 := by
  induction es with
  | nil => exact List.pairwise_singleton _ _
  | cons p es ih =>
    obtain ⟨k, e⟩ := p
    obtain ⟨hp, h'⟩ := List.pairwise_cons.mp h
    rw [set]
    split
    · next hk => exact List.pairwise_cons.mpr ⟨hp, h'⟩
    · next hk =>
      split
      · next hb =>
        have hlt := before_iff.mp hb
        refine List.pairwise_cons.mpr ⟨fun x hx => ?_, h⟩
        rcases List.mem_cons.mp hx with rfl | hx
        · exact hlt
        · exact lt_trans hlt (hp x hx)
      · next hb =>
        have hlt : k < n := lt_of_le_of_ne (not_lt.mp (mt before_iff.mpr hb)) hk
        refine List.pairwise_cons.mpr ⟨fun x hx => ?_, ih h'⟩
        rcases mem_set hx with rfl | hx
        · exact hlt
        · exact hp x hx

/-- a way that leads anywhere has the names of entries -/
theorem Proper.isName {e : Entry} {way : List Text} {s : Stand} (he : Proper e)
    (h : e.stand? way = some s) : ∀ n ∈ way, Path.IsName n := by
  induction way generalizing e with
  | nil => exact nofun
  | cons n ns ih =>
    rw [stand?_cons] at h
    obtain ⟨c, hc, h⟩ := Option.bind_eq_some_iff.mp h
    intro m hm
    rcases List.mem_cons.mp hm with rfl | hm
    · cases e with
      | file d => cases hc
      | directory es => exact (he [] es rfl).2 _ (mem_of_child? hc)
    · exact ih (he.child hc) h m hm

/-- putting a proper entry keeps a tree proper -/
theorem Proper.put {e f : Entry} {way : List Text} (he : Proper e) (hf : Proper f)
    (hw : ∀ n ∈ way, Path.IsName n) : Proper (e.put way f) := by
  induction way generalizing e with
  | nil => exact hf
  | cons n ns ih =>
    have hc : Proper ((e.child? n).getD empty) := by
      cases hc : e.child? n with
      | none => exact proper_empty
      | some c => exact he.child hc
    have hes : e.entries.Pairwise (fun a b => a.1 < b.1) ∧
        ∀ x ∈ e.entries, Path.IsName x.1 ∧ Proper x.2 := by
      cases e with
      | file c => exact ⟨List.Pairwise.nil, nofun⟩
      | directory es => exact proper_directory.mp he
    refine proper_directory.mpr ⟨pairwise_set hes.1, fun x hx => ?_⟩
    rcases mem_set hx with rfl | hx
    · exact ⟨hw n List.mem_cons_self, ih hc fun m hm => hw m (List.mem_cons_of_mem _ hm)⟩
    · exact hes.2 x hx

theorem Proper.get? {e f : Entry} {way : List Text} (he : Proper e) (hf : e.get? way = some f) :
    Proper f := fun ns es h => he (way ++ ns) es (by rw [get?_append, hf]; exact h)

/-! ## all files -/

mutual

def ways : Entry → List (List Text)
  | file _ => [[]]
  | directory es => waysIn es

/-- the ways to the files in some entries -/
def waysIn : List (Text × Entry) → List (List Text)
  | [] => []
  | (n, e) :: es => (ways e).map (n :: ·) ++ waysIn es

end

theorem ways_directory (es : List (Text × Entry)) :
    ways (directory es) = es.flatMap fun x => (ways x.2).map (x.1 :: ·) := by
  rw [ways]
  induction es with
  | nil => rfl
  | cons x es ih =>
    rw [waysIn, ih]
    rfl

theorem mem_ways {e : Entry} (h : Proper e) {way : List Text} :
    way ∈ ways e ↔ ∃ c, e.stand? way = some (.file c) := by
  induction e using tree_induction generalizing way with
  | leaf c =>
    cases way with
    | nil => simp [ways, stand?_nil, stand]
    | cons n ns => simp [ways, bare_file c n ns]
  | node es ih =>
    obtain ⟨ho, hn⟩ := proper_directory.mp h
    rw [ways_directory, List.mem_flatMap]
    constructor
    · rintro ⟨x, hx, hw⟩
      obtain ⟨ns, hns, rfl⟩ := List.mem_map.mp hw
      rw [stand?_cons, child?_of_mem ho hx]
      exact (ih x hx (hn x hx).2).mp hns
    · rintro ⟨c, hw⟩
      cases way with
      | nil => cases hw
      | cons n ns =>
        rw [stand?_cons] at hw
        obtain ⟨d, hd, hw⟩ := Option.bind_eq_some_iff.mp hw
        have hx := mem_of_child? hd
        exact ⟨(n, d), hx, List.mem_map.mpr ⟨ns, (ih _ hx (hn _ hx).2).mpr ⟨c, hw⟩, rfl⟩⟩

theorem pairwise_ways {e : Entry} (h : Proper e) : (ways e).Pairwise (· < ·) := by
  induction e using tree_induction with
  | leaf c => exact List.pairwise_singleton _ _
  | node es ih =>
    obtain ⟨ho, hn⟩ := proper_directory.mp h
    rw [ways_directory, List.pairwise_flatMap]
    refine ⟨fun x hx => ?_, ho.imp fun {x y} hxy a ha b hb => ?_⟩
    · exact List.pairwise_map.mpr ((ih x hx (hn x hx).2).imp List.cons_lt_cons_self.mpr)
    · obtain ⟨ns, -, rfl⟩ := List.mem_map.mp ha
      obtain ⟨ms, -, rfl⟩ := List.mem_map.mp hb
      exact List.cons_lt_cons_iff.mpr (Or.inl hxy)

/-! ## trees that hold the same -/

theorem eq_of_child? {es fs : List (Text × Entry)} (he : es.Pairwise fun a b => a.1 < b.1)
    (hf : fs.Pairwise fun a b => a.1 < b.1)
    (h : ∀ n, (directory es).child? n = (directory fs).child? n) : es = fs := by
  have hmem : ∀ x, x ∈ es ↔ x ∈ fs := fun x => by
    constructor
    · intro hx
      exact mem_of_child? ((h x.1).symm.trans (child?_of_mem he hx))
    · intro hx
      exact mem_of_child? ((h x.1).trans (child?_of_mem hf hx))
  exact List.Pairwise.eq_of_mem_iff he hf hmem

/-- **Proper trees are told apart by what stands in them.** -/
theorem ext {a b : Entry} (ha : Proper a) (hb : Proper b)
    (h : ∀ way, a.stand? way = b.stand? way) : a = b := by
  induction a using tree_induction generalizing b with
  | leaf c =>
    have h0 := h []
    cases b with
    | file d =>
      cases h0
      rfl
    | directory es => cases h0
  | node es ih =>
    cases b with
    | file d => cases h []
    | directory fs =>
      obtain ⟨he, hes⟩ := proper_directory.mp ha
      obtain ⟨hf, hfs⟩ := proper_directory.mp hb
      congr 1
      refine eq_of_child? he hf fun n => ?_
      have hn := fun ns => h (n :: ns)
      simp only [stand?_cons] at hn
      cases hc : (directory es).child? n with
      | none =>
        cases hd : (directory fs).child? n with
        | none => rfl
        | some d =>
          have h0 := hn []
          rw [hc, hd] at h0
          cases h0
      | some c =>
        cases hd : (directory fs).child? n with
        | none =>
          have h0 := hn []
          rw [hc, hd] at h0
          cases h0
        | some d =>
          rw [hc, hd] at hn
          have hx := mem_of_child? hc
          exact congrArg some (ih _ hx (hes _ hx).2 (hfs _ (mem_of_child? hd)).2 hn)

end Entry

end StorySuite
