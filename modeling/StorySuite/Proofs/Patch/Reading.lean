import StorySuite.Proofs.Patch.Order

/-!
# A patched text, read from left to right

What a patch makes of its text is said byte by byte, without a word of the order in which the
edits came: in front of byte `n` stands what was inserted there, then what replaces the text from
there on, and then the character at `n`, unless it is replaced.

* `Patch.before es n`      what the edits `es` put in front of byte `n`;
* `Patch.keeps es n`       whether they leave byte `n` as it is;
* `Patch.passage es n t`   what they make of `t`, whose first byte is byte `n`;
* `Patch.ending es n t`    the same where the text ends with `t`;
* `render_eq_passage`      **a sound patch renders as its passage**;
* `passage_append`, `passage_congr`, `passage_eq_self`   passages are put together piece by piece;
* `Text.weave f n t`       `t` with something in front of each byte, which is what insertions make.
-/

namespace StorySuite

/-- **The text with `f n` in front of its byte `n`**, where its first byte has the number `n`. -/
def Text.weave (f : Nat → Text) (n : Nat) : Text → Text
  | [] => []
  | c :: t => f n ++ c :: weave f (n + c.utf8Size) t

namespace Edit

/-- what an edit brings in -/
def text : Edit → Text
  | insert _ t => t
  | replace _ _ t => t

def insertsAt (n : Nat) : Edit → Bool
  | insert p _ => p = n
  | replace _ _ _ => false

def replacesAt (n : Nat) : Edit → Bool
  | insert _ _ => false
  | replace a _ _ => a = n

/-- whether byte `n` stays as it is -/
def keeps (n : Nat) : Edit → Bool
  | insert _ _ => true
  | replace a b _ => n < a || b ≤ n

theorem start_of_insertsAt {n : Nat} {e : Edit} (h : e.insertsAt n = true) : e.start = n := by
  cases e with
  | insert p s => exact of_decide_eq_true h
  | replace a b s => cases h

theorem start_of_replacesAt {n : Nat} {e : Edit} (h : e.replacesAt n = true) : e.start = n := by
  cases e with
  | insert p s => cases h
  | replace a b s => exact of_decide_eq_true h

theorem keeps_of_lt {n : Nat} {e : Edit} (h : n < e.start) : e.keeps n = true := by
  cases e with
  | insert p s => rfl
  | replace a b s =>
    have h' : n < a := h
    simp [keeps, h']

theorem notAfter_of_insertsAt {n : Nat} (e f : Edit) (he : e.insertsAt n = true)
    (hf : f.insertsAt n = true) : e.notAfter f = true := by
  rw [notAfter_iff]
  cases e <;> cases f <;> simp [insertsAt, start] at he hf ⊢
  omega

theorem notAfter_of_replacesAt {n : Nat} (e f : Edit) (he : e.replacesAt n = true)
    (hf : f.replacesAt n = true) : e.notAfter f = true := by
  rw [notAfter_iff]
  cases e <;> cases f <;> simp [replacesAt, start] at he hf ⊢
  omega

end Edit

namespace Patch

variable {es fs : List Edit}

/-- **What the edits put in front of byte `n`**: insertions in the order they came, then what
replaces the text from there on. -/
def before (es : List Edit) (n : Nat) : Text :=
  (es.filter (Edit.insertsAt n) ++ es.filter (Edit.replacesAt n)).flatMap Edit.text

/-- whether byte `n` stays as it is -/
def keeps (es : List Edit) (n : Nat) : Bool := es.all (Edit.keeps n)

/-- **What the edits make of `t`**, whose first byte is byte `n`. -/
def passage (es : List Edit) (n : Nat) : Text → Text
  | [] => []
  | c :: t => before es n ++ ((if keeps es n then [c] else []) ++ passage es (n + c.utf8Size) t)

/-- what the edits make of the end of a text, from byte `n` on -/
def ending (es : List Edit) (n : Nat) (t : Text) : Text := passage es n t ++ before es (n + t.size)

/-! ## in front of a byte -/

theorem before_eq_nil {n : Nat} (h : ∀ e ∈ es, e.start ≠ n) : before es n = [] := by
  have h1 : es.filter (Edit.insertsAt n) = [] :=
    List.filter_eq_nil_iff.mpr fun e he ht => h e he (Edit.start_of_insertsAt ht)
  have h2 : es.filter (Edit.replacesAt n) = [] :=
    List.filter_eq_nil_iff.mpr fun e he ht => h e he (Edit.start_of_replacesAt ht)
  rw [before, h1, h2]
  rfl

theorem before_cons_of_ne {n : Nat} {e : Edit} (h : e.start ≠ n) :
    before (e :: es) n = before es n := by
  have h1 : ¬ e.insertsAt n = true := fun ht => h (Edit.start_of_insertsAt ht)
  have h2 : ¬ e.replacesAt n = true := fun ht => h (Edit.start_of_replacesAt ht)
  rw [before, List.filter_cons_of_neg h1, List.filter_cons_of_neg h2]
  rfl

theorem before_cons_insert (n : Nat) (s : Text) :
    before (.insert n s :: es) n = s ++ before es n := by
  have h1 : (Edit.insert n s).insertsAt n = true := decide_eq_true rfl
  have h2 : ¬ (Edit.insert n s).replacesAt n = true := Bool.false_ne_true
  rw [before, List.filter_cons_of_pos h1, List.filter_cons_of_neg h2]
  rfl

/-- in front of a replaced range the insertions come first -/
theorem before_cons_replace {a b : Nat} {s : Text} (h : ∀ e ∈ es, e.replacesAt a = false) :
    before (.replace a b s :: es) a = before es a ++ s := by
  have h1 : ¬ (Edit.replace a b s).insertsAt a = true := Bool.false_ne_true
  have h2 : (Edit.replace a b s).replacesAt a = true := decide_eq_true rfl
  have h3 : es.filter (Edit.replacesAt a) = [] :=
    List.filter_eq_nil_iff.mpr fun e he ht => by
      rw [h e he] at ht
      cases ht
  rw [before, before, List.filter_cons_of_neg h1, List.filter_cons_of_pos h2, h3, List.append_nil,
    List.flatMap_append]
  show _ ++ (s ++ []) = _
  rw [List.append_nil]

/-- edits that begin elsewhere do not matter -/
theorem before_append_left {n : Nat} (h : ∀ e ∈ es, e.start ≠ n) :
    before (es ++ fs) n = before fs n := by
  have h1 : es.filter (Edit.insertsAt n) = [] :=
    List.filter_eq_nil_iff.mpr fun e he ht => h e he (Edit.start_of_insertsAt ht)
  have h2 : es.filter (Edit.replacesAt n) = [] :=
    List.filter_eq_nil_iff.mpr fun e he ht => h e he (Edit.start_of_replacesAt ht)
  rw [before, List.filter_append, List.filter_append, h1, h2]
  rfl

theorem before_append_right {n : Nat} (h : ∀ e ∈ fs, e.start ≠ n) :
    before (es ++ fs) n = before es n := by
  have h1 : fs.filter (Edit.insertsAt n) = [] :=
    List.filter_eq_nil_iff.mpr fun e he ht => h e he (Edit.start_of_insertsAt ht)
  have h2 : fs.filter (Edit.replacesAt n) = [] :=
    List.filter_eq_nil_iff.mpr fun e he ht => h e he (Edit.start_of_replacesAt ht)
  rw [before, List.filter_append, List.filter_append, h1, h2, List.append_nil, List.append_nil]
  rfl

/-- insertions stand behind one another -/
theorem before_append_of_inserts {n : Nat} (h : ∀ e ∈ es, e.replacesAt n = false) :
    before (es ++ fs) n = before es n ++ before fs n := by
  have h1 : es.filter (Edit.replacesAt n) = [] :=
    List.filter_eq_nil_iff.mpr fun e he ht => by
      rw [h e he] at ht
      cases ht
  rw [before, before, before, List.filter_append, List.filter_append, h1, List.nil_append,
    List.append_nil, List.append_assoc, List.flatMap_append]

theorem keeps_append (n : Nat) : keeps (es ++ fs) n = (keeps es n && keeps fs n) :=
  List.all_append

theorem keeps_of_lt {n : Nat} (h : ∀ e ∈ es, n < e.start) : keeps es n = true :=
  List.all_eq_true.mpr fun e he => Edit.keeps_of_lt (h e he)

theorem before_arrange (n : Nat) : before (Edit.arrange es) n = before es n := by
  rw [before, Edit.filter_arrange Edit.notAfter_of_insertsAt,
    Edit.filter_arrange Edit.notAfter_of_replacesAt]
  rfl

theorem keeps_arrange (n : Nat) : keeps (Edit.arrange es) n = keeps es n :=
  (Edit.arrange_perm es).all_eq

/-! ## passages -/

theorem passage_append (es : List Edit) (n : Nat) (s t : Text) :
    passage es n (s ++ t) = passage es n s ++ passage es (n + s.size) t := by
  induction s generalizing n with
  | nil => rfl
  | cons c s ih =>
    show before es n ++ (_ ++ passage es (n + c.utf8Size) (s ++ t)) = _
    rw [ih, Text.size_cons, ← Nat.add_assoc]
    simp only [passage, List.append_assoc]

/-- **Only what the edits do within a passage matters to it.** -/
theorem passage_congr {n : Nat} {t : Text}
    (h : ∀ m, n ≤ m → m < n + t.size → before es m = before fs m ∧ keeps es m = keeps fs m) :
    passage es n t = passage fs n t := by
  induction t generalizing n with
  | nil => rfl
  | cons c t ih =>
    have hc : 0 < c.utf8Size := Char.utf8Size_pos c
    rw [Text.size_cons] at h
    obtain ⟨h1, h2⟩ := h n (Nat.le_refl n) (by omega)
    rw [passage, passage, h1, h2, ih fun m hm hm' => h m (by omega) (by omega)]

theorem passage_nil (n : Nat) (t : Text) : passage [] n t = t := by
  induction t generalizing n with
  | nil => rfl
  | cons c t ih => rw [passage, ih]; rfl

theorem ending_append (es : List Edit) (n : Nat) (s t : Text) :
    ending es n (s ++ t) = passage es n s ++ ending es (n + s.size) t := by
  unfold ending
  rw [passage_append, Text.size_append, ← Nat.add_assoc, List.append_assoc]

/-- what the edits make of a text that is cut in two -/
theorem ending_cut (es : List Edit) {t : Text} {n : Nat} (hn : t.isBoundary n = true) :
    ending es 0 t = passage es 0 (t.take n) ++ ending es n (t.drop n) := by
  have h := ending_append es 0 (t.take n) (t.drop n)
  rwa [Text.take_append_drop hn, Text.size_take hn, Nat.zero_add] at h

theorem ending_congr {n : Nat} {t : Text}
    (h : ∀ m, n ≤ m → before es m = before fs m ∧ keeps es m = keeps fs m) :
    ending es n t = ending fs n t := by
  unfold ending
  rw [passage_congr fun m hm _ => h m hm, (h _ (Nat.le_add_right _ _)).1]

/-- a passage that no edit touches -/
theorem passage_eq_self {n : Nat} {t : Text}
    (h : ∀ m, n ≤ m → m < n + t.size → before es m = [] ∧ keeps es m = true) :
    passage es n t = t := by
  have h' : passage es n t = passage [] n t := passage_congr h
  rw [h', passage_nil]

/-- a passage that is replaced by what stands in front of it -/
theorem passage_eq_nil {n : Nat} {t : Text}
    (h : ∀ m, n ≤ m → m < n + t.size → before es m = [] ∧ keeps es m = false) :
    passage es n t = [] := by
  induction t generalizing n with
  | nil => rfl
  | cons c t ih =>
    have hc : 0 < c.utf8Size := Char.utf8Size_pos c
    rw [Text.size_cons] at h
    obtain ⟨h1, h2⟩ := h n (Nat.le_refl n) (by omega)
    rw [passage, h1, h2, ih fun m hm hm' => h m (by omega) (by omega)]
    rfl

/-- a passage in the place of which other text stands -/
theorem passage_eq_before {n : Nat} {t : Text} (ht : 0 < t.size)
    (hkeep : ∀ m, n ≤ m → m < n + t.size → keeps es m = false)
    (hbefore : ∀ m, n < m → m < n + t.size → before es m = []) :
    passage es n t = before es n := by
  cases t with
  | nil => cases ht
  | cons c t =>
    have hc : 0 < c.utf8Size := Char.utf8Size_pos c
    rw [Text.size_cons] at hkeep hbefore
    have htail : passage es (n + c.utf8Size) t = [] := passage_eq_nil fun m h1 h2 =>
      ⟨hbefore m (by omega) (by omega), hkeep m (by omega) (by omega)⟩
    rw [passage, hkeep n (Nat.le_refl n) (by omega), htail]
    exact List.append_nil _

theorem ending_insert (es : List Edit) (n : Nat) (s t : Text) :
    ending (.insert n s :: es) n t = s ++ ending es n t := by
  unfold ending
  cases t with
  | nil => exact before_cons_insert n s
  | cons c t =>
    have hc : 0 < c.utf8Size := Char.utf8Size_pos c
    have hend : (Edit.insert n s).start ≠ n + Text.size (c :: t) := by
      show n ≠ n + Text.size (c :: t)
      rw [Text.size_cons]
      omega
    have htail : passage (.insert n s :: es) (n + c.utf8Size) t =
        passage es (n + c.utf8Size) t := by
      refine passage_congr fun m hm _ => ⟨before_cons_of_ne ?_, rfl⟩
      show n ≠ m
      omega
    have hkeep : keeps (.insert n s :: es) n = keeps es n := rfl
    rw [passage, passage, before_cons_of_ne hend, before_cons_insert, htail, hkeep]
    simp only [List.append_assoc]

theorem keeps_cons_replace {a b n : Nat} {s : Text} (ha : a ≤ n) (hb : n < b) :
    keeps (.replace a b s :: es) n = false := by
  have : (Edit.replace a b s).keeps n = false := by
    simp only [Edit.keeps, Bool.or_eq_false_iff, decide_eq_false_iff_not]
    omega
  simp [keeps, this]

/-- behind a replaced range it does not matter -/
theorem replace_congr {a b n : Nat} (s : Text) (hab : a < b) (hn : b ≤ n) :
    before (.replace a b s :: es) n = before es n ∧
      keeps (.replace a b s :: es) n = keeps es n := by
  have h : (Edit.replace a b s).keeps n = true := by simp [Edit.keeps, hn]
  refine ⟨before_cons_of_ne (show a ≠ n by omega), ?_⟩
  simp [keeps, h]

/-- a passage that one edit replaces as a whole -/
theorem passage_replace {a b : Nat} {s t : Text} (hab : a < b) (ht : a + t.size = b)
    (hes : ∀ m, a ≤ m → m < b → ∀ e ∈ es, e.start ≠ m) :
    passage (.replace a b s :: es) a t = s := by
  have hbefore : ∀ m, a ≤ m → m < b → before es m = [] :=
    fun m h1 h2 => before_eq_nil (hes m h1 h2)
  rw [passage_eq_before (by omega) fun m h1 h2 => keeps_cons_replace h1 (by omega)]
  · rw [before_cons_replace fun e he => ?_, hbefore a (Nat.le_refl a) hab]
    · rfl
    · refine Bool.eq_false_iff.mpr fun h => hes a (Nat.le_refl a) hab e he ?_
      exact Edit.start_of_replacesAt h
  · intro m h1 h2
    have hne : (Edit.replace a b s).start ≠ m := Nat.ne_of_lt h1
    rw [before_cons_of_ne hne, hbefore m (by omega) (by omega)]

/-! ## the rendered text -/

theorem textOf_append (cs ds : List Chunk) :
    Chunk.textOf (cs ++ ds) = Chunk.textOf cs ++ Chunk.textOf ds :=
  List.flatMap_append

theorem textOf_copy (n : Nat) (t : Text) : Chunk.textOf (copy n t) = t := by
  unfold copy
  cases t with
  | nil => rfl
  | cons c t => exact List.append_nil _

/-- the text in front of the first edit -/
theorem passage_gap {t : Text} {n a : Nat} (hn : t.isBoundary n = true)
    (ha : t.isBoundary a = true) (hna : n ≤ a) (hes : ∀ e ∈ es, a ≤ e.start) :
    passage es n (t.drop n) = t.slice n a ++ passage es a (t.drop a) := by
  have hsize : n + (t.slice n a).size = a := by
    rw [Text.size_slice hn ha hna]
    omega
  rw [← Text.slice_append_drop hn ha hna, passage_append, hsize]
  congr 1
  refine passage_eq_self fun m _ hm => ⟨before_eq_nil fun e he => ?_, keeps_of_lt fun e he => ?_⟩
  · have := hes e he
    omega
  · have := hes e he
    omega

/-- **Edits that lie side by side make the chunks of their passage.** -/
theorem textOf_chunksFrom {t : Text} {n : Nat} (h : Edit.Laid t n es) :
    Chunk.textOf (chunksFrom t n es) = passage es n (t.drop n) ++ before es t.size := by
  induction es generalizing n with
  | nil =>
    show Chunk.textOf (copy n (t.drop n)) = _
    rw [textOf_copy, passage_nil]
    exact (List.append_nil _).symm
  | cons e es ih =>
    cases e with
    | insert p s =>
      obtain ⟨hn, hnp, hes⟩ := h
      have hp := hes.boundary
      have hgap : passage (.insert p s :: es) n (t.drop n) =
          t.slice n p ++ passage (.insert p s :: es) p (t.drop p) := passage_gap hn hp hnp fun e he => by
        rcases List.mem_cons.mp he with rfl | he
        · exact Nat.le_refl p
        · exact hes.le_start e he
      have hins := ending_insert es p s (t.drop p)
      rw [ending, ending, Text.size_drop hp] at hins
      have hs : Chunk.textOf (if s.isEmpty then [] else [.inserted s]) = s := by
        cases s with
        | nil => rfl
        | cons c s => exact List.append_nil _
      show Chunk.textOf (copy n (t.slice n (max n p)) ++
        ((if s.isEmpty then [] else [.inserted s]) ++ chunksFrom t (max n p) es)) = _
      rw [Nat.max_eq_right hnp, textOf_append, textOf_append, textOf_copy, hs, ih hes, hgap,
        List.append_assoc, hins]
    | replace a b s =>
      obtain ⟨hn, hna, hab, ha, hes⟩ := h
      have hb := hes.boundary
      have hle := hes.le_start
      have hgap : passage (.replace a b s :: es) n (t.drop n) =
          t.slice n a ++ passage (.replace a b s :: es) a (t.drop a) := passage_gap hn ha hna fun e he => by
        rcases List.mem_cons.mp he with rfl | he
        · exact Nat.le_refl a
        · exact Nat.le_of_lt (Nat.lt_of_lt_of_le hab (hle e he))
      have hrep : passage (.replace a b s :: es) a (t.slice a b) = s := by
        refine passage_replace hab ?_ fun m _ hm e he => ?_
        · rw [Text.size_slice ha hb (Nat.le_of_lt hab)]
          omega
        · exact Nat.ne_of_gt (Nat.lt_of_lt_of_le hm (hle e he))
      have hrest : passage (.replace a b s :: es) b (t.drop b) = passage es b (t.drop b) :=
        passage_congr fun m hm _ => replace_congr s hab hm
      have hend : before (.replace a b s :: es) t.size = before es t.size :=
        (replace_congr s hab (Text.le_size hb)).1
      have hsum : a + (t.slice a b).size = b := by
        rw [Text.size_slice ha hb (Nat.le_of_lt hab)]
        omega
      show Chunk.textOf (copy n (t.slice n (max n a)) ++ .replaced a s :: chunksFrom t b es) = _
      rw [Nat.max_eq_right hna, textOf_append, textOf_copy, hgap,
        ← Text.slice_append_drop ha hb (Nat.le_of_lt hab), passage_append, hrep, hsum, hrest,
        hend, List.append_assoc, List.append_assoc, ← ih hes]
      rfl

/-- **A sound patch renders as its passage.** -/
theorem render_eq_passage {p : Patch} (hp : p.Sound) :
    p.render = passage p.edits 0 p.text ++ before p.edits p.text.size := by
  have h := textOf_chunksFrom hp.laid_arrange
  rw [Text.drop_zero, before_arrange] at h
  show Chunk.textOf (chunksFrom p.text 0 (Edit.arrange p.edits)) = _
  rw [h]
  congr 1
  exact passage_congr fun m _ _ => ⟨before_arrange m, keeps_arrange m⟩

/-! ## what is kept as a whole -/

theorem passage_eq_weave {f : Nat → Text} {n : Nat} {t : Text}
    (h : ∀ m, n ≤ m → m < n + t.size → before es m = f m ∧ keeps es m = true) :
    passage es n t = t.weave f n := by
  induction t generalizing n with
  | nil => rfl
  | cons c t ih =>
    have hc : 0 < c.utf8Size := Char.utf8Size_pos c
    rw [Text.size_cons] at h
    obtain ⟨h1, h2⟩ := h n (Nat.le_refl n) (by omega)
    rw [passage, h1, h2, ih fun m hm hm' => h m (by omega) (by omega)]
    rfl

end Patch

end StorySuite
