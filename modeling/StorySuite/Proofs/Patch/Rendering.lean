import Mathlib.Data.List.Pairwise
import StorySuite.Proofs.Patch.Chunks

/-!
# What a history of edits renders as

A history is any list of requests, refused ones among them.  Three descriptions of what it leaves
are proved to agree: the edits on record, the text that a reader makes who walks over the original
once and knows nothing of sorting, and the chunks.

* `Patch.makeEach p rs`         the patch after a history, refused requests changing nothing;
* `Patch.accepted p rs`         the requests of it that are accepted, each after those before it;
* `Request.edits t`             what an accepted request puts on record;
* `Patch.reading es upto n t`   the walk: in front of byte `n` the insertions of that place, then
                                the replacement that begins there and on to its end, else the
                                character;
* `Patch.Tiles t es n cs`       the chunks `cs` go over every byte of `t` from `n` on, once and in
                                order;
* `render_makeEach`             **every history renders as its walk, and its chunks tile the text**.

The invariant of the walk is that a byte is inside a replaced range only while the reader skips
it; it is kept because no two recorded edits meet.
-/

namespace StorySuite.Patch

variable {p q : Patch}

/-! ## histories -/

/-- the patch after a history: a refused request leaves it as it is -/
def makeEach (p : Patch) : List Request → Patch
  | [] => p
  | r :: rs =>
    match p.make r with
    | .ok q => makeEach q rs
    | .error _ => makeEach p rs

/-- the requests that are accepted, each after those before it -/
def accepted (p : Patch) : List Request → List Request
  | [] => []
  | r :: rs =>
    match p.make r with
    | .ok q => r :: accepted q rs
    | .error _ => accepted p rs

/-- **What an accepted request puts on record** against the text `t`. -/
def Request.edits (t : Text) : Request → List Edit
  | .insert n s => [.insert n s]
  | .append s => [.insert t.size s]
  | .overwrite a b s => Edit.ofOverwrite t a b s

theorem Sound.edits_make (hp : p.Sound) {r : Request} (h : p.make r = .ok q) :
    q.edits = p.edits ++ r.edits p.text := by
  cases r with
  | insert n s =>
    obtain ⟨-, -, rfl⟩ := insert_ok_iff.mp h
    rfl
  | append s =>
    obtain ⟨-, -, rfl⟩ := insert_ok_iff.mp h
    rfl
  | overwrite a b s =>
    obtain ⟨-, -, rfl⟩ := (overwrite_ok_iff hp).mp h
    rfl

theorem makeAll_cons {r : Request} {rs : List Request} (h : p.make r = .ok q) :
    p.makeAll (r :: rs) = q.makeAll rs := by
  show p.make r >>= _ = _
  rw [h]
  rfl

theorem Sound.makeEach {rs : List Request} (hp : p.Sound) :
    (p.makeEach rs).Sound ∧ (p.makeEach rs).text = p.text := by
  induction rs generalizing p with
  | nil => exact ⟨hp, rfl⟩
  | cons r rs ih =>
    unfold Patch.makeEach
    split
    · next q h =>
      obtain ⟨hq, htext⟩ := hp.make h
      obtain ⟨h1, h2⟩ := ih hq
      exact ⟨h1, h2.trans htext⟩
    · exact ih hp

/-- without the refused requests a history goes through -/
theorem makeAll_accepted (p : Patch) (rs : List Request) :
    p.makeAll (accepted p rs) = .ok (p.makeEach rs) := by
  induction rs generalizing p with
  | nil => rfl
  | cons r rs ih =>
    unfold accepted makeEach
    split
    · next q h => exact (makeAll_cons h).trans (ih q)
    · exact ih p

/-- **On record is what the accepted requests put there, in the order they came.** -/
theorem Sound.edits_makeEach {rs : List Request} (hp : p.Sound) :
    (p.makeEach rs).edits = p.edits ++ (accepted p rs).flatMap (Request.edits p.text) := by
  induction rs generalizing p with
  | nil => exact (List.append_nil _).symm
  | cons r rs ih =>
    unfold Patch.makeEach accepted
    split
    · next q h =>
      obtain ⟨hq, htext⟩ := hp.make h
      rw [ih hq, hp.edits_make h, htext, List.flatMap_cons, List.append_assoc]
    · exact ih hp

/-! ## the walk -/

/-- the insertions in front of byte `n`, in the order they came -/
def insertions (es : List Edit) (n : Nat) : Text := (es.filter (Edit.insertsAt n)).flatMap Edit.text

/-- **The original read once from left to right**, where `t` begins with byte `n` and what lies
before byte `upto` is skipped. -/
def reading (es : List Edit) : Nat → Nat → Text → Text
  | _, n, [] => insertions es n
  | upto, n, c :: t =>
    if n < upto then reading es upto (n + c.utf8Size) t
    else insertions es n ++
      match es.find? (Edit.replacesAt n) with
      | some (.replace _ stop s) => s ++ reading es stop (n + c.utf8Size) t
      | _ => c :: reading es upto (n + c.utf8Size) t

/-- the next place to cut at behind a character -/
theorem add_utf8Size_le {t s u : Text} {c : Char} {n m : Nat} (ht : t = s ++ c :: u)
    (hs : s.size = n) (hm : t.isBoundary m = true) (hnm : n < m) : n + c.utf8Size ≤ m := by
  obtain ⟨s', u', h, rfl⟩ := Text.isBoundary_iff.mp hm
  have hle : s.size ≤ s'.size := by omega
  obtain ⟨w, rfl, hw⟩ := Text.append_of_le (ht.symm.trans h) hle
  cases w with
  | nil => simp at hnm; omega
  | cons d w =>
    cases hw
    simp
    omega

/-- no replaced range has byte `n` inside it -/
def Open (es : List Edit) (n : Nat) : Prop := ∀ e ∈ es, e.covers n = false

/-- **Where the reader stands**: inside a replaced range that ends at byte `upto`, or at a byte
that no replaced range has inside it. -/
def Stands (es : List Edit) (upto n : Nat) : Prop :=
  (n < upto ∧ ∃ a s, .replace a upto s ∈ es ∧ a < n) ∨ (upto ≤ n ∧ Open es n)

/-- what the edits put in front of a byte at which nothing is replaced -/
theorem before_of_find?_none {es : List Edit} {n : Nat}
    (h : es.find? (Edit.replacesAt n) = none) : before es n = insertions es n := by
  have h1 : es.filter (Edit.replacesAt n) = [] :=
    List.filter_eq_nil_iff.mpr fun e he => List.find?_eq_none.mp h e he
  rw [before, h1, List.append_nil]
  rfl

/-- a byte that no replaced range has inside it, and at which none begins, is kept -/
theorem keeps_of_open {es : List Edit} {n : Nat} (ho : Open es n)
    (hnone : es.find? (Edit.replacesAt n) = none) : keeps es n = true := by
  refine List.all_eq_true.mpr fun e he => ?_
  cases e with
  | insert k u => rfl
  | replace a b u =>
    have hne : a ≠ n := fun h => List.find?_eq_none.mp hnone _ he (decide_eq_true h)
    have hcov := ho _ he
    simp only [Edit.covers, Edit.keeps, Bool.and_eq_false_iff, Bool.or_eq_true,
      decide_eq_false_iff_not, decide_eq_true_eq] at hcov ⊢
    omega

/-- a byte of a replaced range is not kept -/
theorem keeps_of_replaced {es : List Edit} {a b n : Nat} {s : Text} (h : .replace a b s ∈ es)
    (han : a ≤ n) (hnb : n < b) : keeps es n = false := by
  refine List.all_eq_false.mpr ⟨_, h, ?_⟩
  simp only [Edit.keeps, Bool.or_eq_true, decide_eq_true_eq]
  omega

/-- what the edits make of a character and of what comes behind it -/
theorem ending_cons (es : List Edit) (n : Nat) (c : Char) (t : Text) :
    ending es n (c :: t) =
      before es n ++ ((if keeps es n then [c] else []) ++ ending es (n + c.utf8Size) t) := by
  unfold ending
  rw [passage, Text.size_cons, ← Nat.add_assoc]
  simp only [List.append_assoc]

section
variable (hp : p.Sound)
include hp

/-- two recorded edits are apart, whichever came first -/
theorem Sound.apart_of_ne {e f : Edit} (he : e ∈ p.edits) (hf : f ∈ p.edits) (h : e ≠ f) :
    e.Apart f := by
  have : Std.Symm Edit.Apart := ⟨fun _ _ ha => ha.symm⟩
  exact hp.apart.forall he hf h

/-- the replacement at a place is alone there -/
theorem Sound.filter_replacesAt {n : Nat} {e : Edit}
    (he : p.edits.find? (Edit.replacesAt n) = some e) :
    p.edits.filter (Edit.replacesAt n) = [e] := by
  obtain ⟨hen, us, vs, hsplit, hus⟩ := List.find?_eq_some_iff_append.mp he
  have hapart := hp.apart
  have hfits := hp.fits
  rw [hsplit] at hapart hfits ⊢
  have hvs : vs.filter (Edit.replacesAt n) = [] := by
    refine List.filter_eq_nil_iff.mpr fun f hf hfn => ?_
    have hef : e.Apart f :=
      (List.pairwise_cons.mp (List.pairwise_append.mp hapart).2.1).1 f hf
    have h1 := hfits e (by simp)
    have h2 := hfits f (by simp [hf])
    cases e with
    | insert k s => cases hen
    | replace a b s =>
      cases f with
      | insert k s' => cases hfn
      | replace a' b' s' =>
        -- both ranges have the byte `n`
        obtain rfl : a = n := of_decide_eq_true hen
        obtain rfl : a' = a := of_decide_eq_true hfn
        obtain ⟨-, -, hab⟩ := h1
        obtain ⟨-, -, hab'⟩ := h2
        rcases hef with hef | hef <;> omega
  have hus' : us.filter (Edit.replacesAt n) = [] :=
    List.filter_eq_nil_iff.mpr fun f hf hfn => by simpa [hfn] using hus f hf
  rw [List.filter_append, List.filter_cons_of_pos hen, hus', hvs]
  rfl

theorem Sound.before_of_find?_some {n : Nat} {e : Edit}
    (he : p.edits.find? (Edit.replacesAt n) = some e) :
    before p.edits n = insertions p.edits n ++ e.text := by
  rw [before, hp.filter_replacesAt he, List.flatMap_append]
  show _ ++ (e.text ++ []) = _
  rw [List.append_nil]
  rfl

/-- behind a replaced range nothing is replaced that began before its end -/
theorem Sound.open_stop {a b : Nat} {s : Text} (h : .replace a b s ∈ p.edits) :
    Open p.edits b := by
  intro e he
  obtain ⟨-, -, hab⟩ := hp.fits _ h
  by_cases hne : e = .replace a b s
  · rw [hne]
    simp [Edit.covers]
  · have hap := hp.apart_of_ne he h hne
    cases e with
    | insert k u => rfl
    | replace a' b' u =>
      obtain ⟨-, -, hab'⟩ := hp.fits _ he
      simp only [Edit.Apart, Edit.covers, Bool.and_eq_false_iff, decide_eq_false_iff_not]
        at hap ⊢
      omega

/-- inside a replaced range nothing begins, and nothing is kept -/
theorem Sound.inside {a b n : Nat} {s : Text} (h : .replace a b s ∈ p.edits) (han : a < n)
    (hnb : n < b) : before p.edits n = [] ∧ keeps p.edits n = false := by
  refine ⟨before_eq_nil fun e he hen => ?_, ?_⟩
  · have hne : e ≠ .replace a b s := by
      rintro rfl
      exact Nat.ne_of_lt han hen
    have hap := hp.apart_of_ne he h hne
    have hfit := hp.fits e he
    cases e with
    | insert k u => simp only [Edit.Apart, Edit.start] at hap hen; omega
    | replace a' b' u =>
      obtain ⟨-, -, hab'⟩ := hfit
      simp only [Edit.Apart, Edit.start] at hap hen
      omega
  · exact keeps_of_replaced h (Nat.le_of_lt han) hnb

/-- from one character to the next where nothing is replaced -/
theorem Sound.open_next {w t : Text} {c : Char} {n : Nat} (ht : p.text = w ++ c :: t)
    (hw : w.size = n) (ho : Open p.edits n) (hnone : p.edits.find? (Edit.replacesAt n) = none) :
    Open p.edits (n + c.utf8Size) := by
  intro e he
  cases e with
  | insert k u => rfl
  | replace a b u =>
    obtain ⟨ha, hb, hab⟩ := hp.fits _ he
    have hne : a ≠ n := fun h => List.find?_eq_none.mp hnone _ he (decide_eq_true h)
    have hcov := ho _ he
    have hnext : n < a → n + c.utf8Size ≤ a := fun h => add_utf8Size_le ht hw ha h
    have hnext' : n < b → n + c.utf8Size ≤ b := fun h => add_utf8Size_le ht hw hb h
    simp only [Edit.covers, Bool.and_eq_false_iff, decide_eq_false_iff_not] at hcov ⊢
    omega

/-- from one character of a replaced range to the next, or to the end of the range -/
theorem Sound.stands_next {w t : Text} {c : Char} {n a b : Nat} {s : Text}
    (ht : p.text = w ++ c :: t) (hw : w.size = n) (h : .replace a b s ∈ p.edits) (han : a ≤ n)
    (hnb : n < b) : Stands p.edits b (n + c.utf8Size) := by
  have hc : 0 < c.utf8Size := Char.utf8Size_pos c
  have hcut := add_utf8Size_le ht hw (hp.fits _ h).2.1 hnb
  rcases Nat.lt_or_ge (n + c.utf8Size) b with hlt | hge
  · exact Or.inl ⟨hlt, a, s, h, by omega⟩
  · obtain rfl : b = n + c.utf8Size := by omega
    exact Or.inr ⟨Nat.le_refl _, hp.open_stop h⟩

/-- no replaced range begins where the text ends -/
theorem Sound.find?_end : p.edits.find? (Edit.replacesAt p.text.size) = none := by
  refine List.find?_eq_none.mpr fun e he hen => ?_
  cases e with
  | insert k s => cases hen
  | replace a b s =>
    obtain ⟨-, hb, hab⟩ := hp.fits _ he
    have hle := Text.le_size hb
    have ha : a = p.text.size := of_decide_eq_true hen
    omega

/-- **The walk makes what the edits make of the text**, from every place on where the reader can
stand. -/
theorem Sound.reading_eq {w t : Text} {upto n : Nat} (ht : p.text = w ++ t) (hw : w.size = n)
    (hst : Stands p.edits upto n) : reading p.edits upto n t = ending p.edits n t := by
  induction t generalizing w upto n with
  | nil =>
    obtain rfl : p.text.size = n := by rw [ht, List.append_nil, hw]
    exact (before_of_find?_none hp.find?_end).symm
  | cons c t ih =>
    have hc : 0 < c.utf8Size := Char.utf8Size_pos c
    have hnext : ∀ upto', Stands p.edits upto' (n + c.utf8Size) →
        reading p.edits upto' (n + c.utf8Size) t = ending p.edits (n + c.utf8Size) t := by
      refine fun upto' h => ih (w := w ++ [c]) ?_ ?_ h
      · rw [ht, List.append_assoc, List.singleton_append]
      · rw [Text.size_append, Text.size_cons, Text.size_nil, hw, Nat.add_zero]
    rw [ending_cons]
    unfold reading
    rcases hst with ⟨hlt, a, s, hmem, han⟩ | ⟨hle, hopen⟩
    · obtain ⟨hbefore, hkeep⟩ := hp.inside hmem han hlt
      rw [if_pos hlt, hbefore, hkeep,
        hnext _ (hp.stands_next ht hw hmem (Nat.le_of_lt han) hlt)]
      rfl
    rw [if_neg (Nat.not_lt.mpr hle)]
    cases hfind : p.edits.find? (Edit.replacesAt n) with
    | none =>
      have hopen' := hp.open_next ht hw hopen hfind
      rw [before_of_find?_none hfind, keeps_of_open hopen hfind,
        hnext upto (Or.inr ⟨by omega, hopen'⟩)]
      rfl
    | some e =>
      have he := List.mem_of_find?_eq_some hfind
      have hen := List.find?_some hfind
      rw [hp.before_of_find?_some hfind]
      cases e with
      | insert k s => cases hen
      | replace a b s =>
        obtain rfl : a = n := of_decide_eq_true hen
        obtain ⟨-, -, hab⟩ := hp.fits _ he
        rw [keeps_of_replaced he (Nat.le_refl a) hab, List.append_assoc]
        show _ ++ (s ++ reading p.edits b (a + c.utf8Size) t) = _
        rw [hnext b (hp.stands_next ht hw he (Nat.le_refl a) hab)]
        rfl

end

/-- **A sound patch renders as the walk over its text.** -/
theorem Sound.render_eq_reading (hp : p.Sound) : p.render = reading p.edits 0 0 p.text := by
  have hopen : Open p.edits 0 := by
    intro e _
    cases e with
    | insert k s => rfl
    | replace a b s => simp [Edit.covers]
  have hread : reading p.edits 0 0 p.text = ending p.edits 0 p.text :=
    hp.reading_eq (w := []) rfl rfl (Or.inr ⟨Nat.le_refl 0, hopen⟩)
  rw [render_eq_passage hp, hread, ending, Nat.zero_add]

/-! ## chunks tile the text -/

/-- **The chunks go over every byte of `t` from byte `n` on, once and in order**: copied ones are
the slices that begin where they say, and replaced ones stand for ranges that `es` overwrite. -/
def Tiles (t : Text) (es : List Edit) : Nat → List Chunk → Prop
  | n, [] => n = t.size
  | n, .copied a s :: cs =>
    a = n ∧ s ≠ [] ∧ t.isBoundary a = true ∧ t.slice a (a + s.size) = s ∧
      Tiles t es (a + s.size) cs
  | n, .replaced a s :: cs => a = n ∧ ∃ b, .replace a b s ∈ es ∧ a < b ∧ Tiles t es b cs
  | n, .inserted _ :: cs => Tiles t es n cs

variable {t : Text} {all es : List Edit} {n m : Nat} {cs : List Chunk}

theorem tiles_copy (hn : t.isBoundary n = true) (hm : t.isBoundary m = true) (hnm : n ≤ m)
    (h : Tiles t all m cs) : Tiles t all n (copy n (t.slice n m) ++ cs) := by
  have hsize : n + (t.slice n m).size = m := by
    rw [Text.size_slice hn hm hnm]
    omega
  unfold copy
  split
  · next he =>
    rw [List.isEmpty_iff.mp he] at hsize
    obtain rfl : n = m := hsize
    exact h
  · next he =>
    refine ⟨rfl, fun h0 => he (List.isEmpty_iff.mpr h0), hn, ?_, ?_⟩
    · rw [hsize]
    · rw [hsize]
      exact h

theorem slice_size (hn : t.isBoundary n = true) : t.slice n t.size = t.drop n := by
  have h := Text.slice_append_drop hn (Text.isBoundary_size t) (Text.le_size hn)
  have h0 : t.drop t.size = [] := by
    have := Text.drop_append t []
    rwa [List.append_nil] at this
  rwa [h0, List.append_nil] at h

theorem tiles_chunksFrom (h : Edit.Laid t n es) (hes : ∀ e ∈ es, e ∈ all) :
    Tiles t all n (chunksFrom t n es) := by
  induction es generalizing n with
  | nil =>
    have hn : t.isBoundary n = true := h
    show Tiles t all n (copy n (t.drop n))
    rw [← slice_size hn, ← List.append_nil (copy _ _)]
    exact tiles_copy hn (Text.isBoundary_size t) (Text.le_size hn) rfl
  | cons e es ih =>
    have hes' : ∀ f ∈ es, f ∈ all := fun f hf => hes f (List.mem_cons_of_mem e hf)
    cases e with
    | insert k s =>
      obtain ⟨hn, hnk, hlaid⟩ := h
      have hrest := ih hlaid hes'
      show Tiles t all n (copy n (t.slice n (max n k)) ++
        ((if s.isEmpty then [] else [.inserted s]) ++ chunksFrom t (max n k) es))
      rw [Nat.max_eq_right hnk]
      refine tiles_copy hn hlaid.boundary hnk ?_
      split
      · exact hrest
      · exact hrest
    | replace a b s =>
      obtain ⟨hn, hna, hab, ha, hlaid⟩ := h
      show Tiles t all n (copy n (t.slice n (max n a)) ++ .replaced a s :: chunksFrom t b es)
      rw [Nat.max_eq_right hna]
      refine tiles_copy hn ha hna ⟨rfl, b, hes _ List.mem_cons_self, hab, ih hlaid hes'⟩

/-- every overwritten range has its chunk -/
theorem replaced_mem_chunksFrom {a b : Nat} {s : Text} (h : .replace a b s ∈ es) :
    .replaced a s ∈ chunksFrom t n es := by
  induction es generalizing n with
  | nil => cases h
  | cons e es ih =>
    refine List.mem_append_right _ ?_
    rcases List.mem_cons.mp h with rfl | hes
    · exact List.mem_cons_self
    · cases e with
      | insert k u => exact List.mem_append_right _ (ih hes)
      | replace a' b' u => exact List.mem_cons_of_mem _ (ih hes)

/-! ## histories render -/

/-- **What a history of requests leaves, whatever was asked for.**  The accepted requests go
through one after the other, and what they put on record, in the order they came, is all there is:
no edit cuts a character or meets another, and in the order of the text they lie side by side, so
every piece is cut out between two boundaries.  The patch renders as the walk over the original,
and its chunks tile the original, with a chunk for each overwritten range. -/
theorem render_makeEach (t : Text) (rs : List Request) :
    let p := (ofText t).makeEach rs
    let es := (accepted (ofText t) rs).flatMap (Request.edits t)
    (ofText t).makeAll (accepted (ofText t) rs) = .ok p ∧
      p.text = t ∧ p.edits = es ∧
      ((∀ e ∈ es, e.Fits t) ∧ es.Pairwise Edit.Apart ∧ Edit.Laid t 0 (Edit.arrange es)) ∧
      p.render = reading es 0 0 t ∧
      Tiles t es 0 p.chunks ∧ ∀ a b s, .replace a b s ∈ es → .replaced a s ∈ p.chunks := by
  intro p es
  obtain ⟨hsound, htext⟩ : p.Sound ∧ p.text = t := (sound_ofText t).makeEach
  have hes : p.edits = es := (sound_ofText t).edits_makeEach
  have hlaid := hsound.laid_arrange
  have hrender := hsound.render_eq_reading
  obtain ⟨hfits, hapart⟩ := hsound
  have hchunks : p.chunks = chunksFrom t 0 (Edit.arrange es) := by
    show chunksFrom p.text 0 (Edit.arrange p.edits) = _
    rw [htext, hes]
  rw [htext, hes] at hlaid hrender hfits
  rw [hes] at hapart
  refine ⟨makeAll_accepted _ rs, htext, hes, ⟨hfits, hapart, hlaid⟩, hrender, ?_, ?_⟩
  · rw [hchunks]
    exact tiles_chunksFrom hlaid fun e he => Edit.mem_arrange.mp he
  · intro a b s h
    rw [hchunks]
    exact replaced_mem_chunksFrom (Edit.mem_arrange.mpr h)

example : ((ofText "abc").makeEach
    [.overwrite 0 2 "XY", .insert 0 ">", .overwrite 1 3 "?", .insert 2 "<"]).render =
      (">XY<c" : Text) := by decide +kernel

end StorySuite.Patch
