import StorySuite.Json.Reader
import StorySuite.Proofs.Json.Characters

/-!
# Reading what was written

A reader gives back what was written in its shape, with any blanks in front of it and whatever
follows it.  Lists and objects are read member by member; in an object each key names a member of the
record, which reads what stands behind it, or is passed over.

* `Reader.Gives`           where a value is written, a reader reads what it is to stand for;
* `Reader.gives_text`, `Reader.gives_byte`, `Reader.gives_list`, `Reader.gives_orNull`   values of
                           simple shapes;
* `Reader.gather_row`      the members of a list or an object, one after the other;
* `Reader.Fills`           what the fields of an object put into a record;
* `Reader.record_object`   **a record is read from an object that has its fields once each**, with
                           any others between them.
-/

namespace StorySuite.Json

/-- `t` does not begin with a digit. -/
def Undigit (t : Text) : Prop := ∀ c, t.head? = some c → c.isDigit = false

theorem not_digit_of_mem_closers {c : Char} (h : c ∈ closers) : c.isDigit = false := by
  have hall : closers.all (fun x => !x.isDigit) = true := by decide
  have hnot := List.all_eq_true.mp hall c h
  rwa [Bool.not_eq_true'] at hnot

theorem not_mem_closers_of_digit {d : Char} (hd : d.isDigit = true) : d ∉ closers := by
  intro h
  rw [not_digit_of_mem_closers h] at hd
  exact Bool.false_ne_true hd

theorem Undigit.closes {rest : Text} (h : Closes rest) : Undigit rest := by
  obtain ⟨c, hc, u, rfl⟩ := h
  rintro _ ⟨⟩
  exact not_digit_of_mem_closers hc

theorem digits_append {ds rest : Text} (hds : ∀ x ∈ ds, x.isDigit) (h : Undigit rest) :
    digits (ds ++ rest) = ds := by
  rw [digits, List.takeWhile_append_of_pos hds]
  cases rest with
  | nil => exact List.append_nil ds
  | cons c u =>
    rw [List.takeWhile_cons, h c rfl, if_neg Bool.false_ne_true, List.append_nil]

theorem afterDigits_append {ds rest : Text} (hds : ∀ x ∈ ds, x.isDigit) (h : Undigit rest) :
    afterDigits (ds ++ rest) = rest := by
  rw [afterDigits, List.dropWhile_append_of_pos hds]
  cases rest with
  | nil => rfl
  | cons c u => rw [List.dropWhile_cons, h c rfl, if_neg Bool.false_ne_true]

/-- `v` is passed over, whatever stands around it. -/
def Skips (v : Text) : Prop :=
  ∀ w rest, Blanks w → Closes rest → skip (w ++ (v ++ rest)) = .ok rest

theorem colon_append {w : Text} (hw : Blanks w) (t : Text) : colon (w ++ ':' :: t) = .ok t := by
  simp only [colon, skipBlanks_append hw (c := ':') rfl]

theorem settle_list {α : Type} (a : α) {w : Text} (hw : Blanks w) (rest : Text) :
    Bracket.settle .list (.ok (a, w ++ ']' :: rest)) = .ok (a, rest) := by
  simp only [Bracket.settle, Bracket.close, skipBlanks_append hw (c := ']') rfl]
  rfl

theorem settle_object {α : Type} (a : α) {w : Text} (hw : Blanks w) (rest : Text) :
    Bracket.settle .object (.ok (a, w ++ '\x7d' :: rest)) = .ok (a, rest) := by
  simp only [Bracket.settle, Bracket.close, skipBlanks_append hw (c := '\x7d') rfl]
  rfl

namespace Reader

variable {α σ : Type}

/-! ## values -/

/-- where `v` is written, `r` reads `a` -/
def Gives (r : Reader α) (levels : Nat) (v : Text) (a : α) : Prop :=
  ∀ w rest, Blanks w → Closes rest → r levels (w ++ (v ++ rest)) = .ok (a, rest)

theorem gives_text (expected : Text) (levels : Nat) {s q : Text} (h : Quotes s q) :
    (text expected).Gives levels q s := by
  obtain ⟨u, hu, rfl⟩ := h
  intro w rest hw _
  rw [List.cons_append, List.append_assoc, text, skipBlanks_append hw rfl]
  exact characters_spelled hu rest

/-- a number is read up to what is no part of one -/
theorem read_digits {d : Char} {ds : Text} {n : Nat} (hd : d.isDigit) (hds : ∀ x ∈ ds, x.isDigit)
    (h0 : d = '0' → n = 0 ∧ ds = []) (hn : gatherDigits (digitValue d) ds = (n, 0)) {rest : Text}
    (hrest : Closes rest) : Number.read false (d :: (ds ++ rest)) = .ok (.natural n, rest) := by
  have hdigit := Undigit.closes hrest
  obtain ⟨c, hc, u, rfl⟩ := hrest
  have hafter : ∀ k, afterInteger false k 0 (c :: u) = .ok (.natural k, c :: u) := by
    intro k
    simp only [closers, List.mem_cons, List.not_mem_nil, or_false] at hc
    rcases hc with rfl | rfl | rfl | rfl | rfl | rfl | rfl <;> rfl
  unfold Number.read
  by_cases hz : d = '0'
  · obtain ⟨rfl, rfl⟩ := h0 hz
    simp only [hz, if_true, List.nil_append, hdigit c rfl, Bool.false_eq_true, if_false, hafter]
  · simp only [hz, if_false, hd, if_true, digits_append hds hdigit, afterDigits_append hds hdigit, hn,
      hafter]

theorem gives_byte (levels : Nat) (b : UInt8) : byte.Gives levels (Text.ofNat b.toNat) b := by
  have hall : ∀ n : Fin 256, ((Text.ofNat n.val).head?.any fun d =>
      d.isDigit && (Text.ofNat n.val).tail.all Char.isDigit &&
        (d != '0' || n.val == 0 && (Text.ofNat n.val).tail.isEmpty) &&
        gatherDigits (digitValue d) (Text.ofNat n.val).tail == (n.val, 0)) = true := by
    decide +kernel
  have h := hall ⟨b.toNat, b.toNat_lt⟩
  intro w rest hw hrest
  cases ht : Text.ofNat b.toNat with
  | nil => simp [ht] at h
  | cons d ds =>
    simp only [ht, List.head?_cons, Option.any_some, List.tail_cons, Bool.and_eq_true,
      List.all_eq_true, Bool.or_eq_true, bne_iff_ne, beq_iff_eq, List.isEmpty_iff] at h
    obtain ⟨⟨⟨hd, hds⟩, hzero⟩, hn⟩ := h
    have hread := read_digits hd hds (fun hz => hzero.resolve_left (fun hne => hne hz)) hn hrest
    have hblank : isBlank d = false := isBlank_eq_false (not_mem_closers_of_digit hd)
    rw [List.cons_append, byte, skipBlanks_append hw hblank]
    split
    · next heq =>
      obtain ⟨rfl, -⟩ := List.cons.inj heq
      exact absurd hd (by decide)
    · next heq =>
      obtain ⟨rfl, rfl⟩ := List.cons.inj heq
      rw [if_pos hd, hread]
      show toByte (.natural b.toNat) rest = _
      rw [toByte, if_pos b.toNat_lt, Nat.toUInt8_eq, UInt8.ofNat_toNat]
    · next heq => cases heq

theorem gives_null (r : Reader α) (levels : Nat) :
    (optional r).Gives levels ['n', 'u', 'l', 'l'] none := by
  intro w rest hw _
  rw [List.cons_append, optional, skipBlanks_append hw rfl]
  rfl

theorem gives_optional {r : Reader α} {levels : Nat} {v : Text} {a : α} (h : r.Gives levels v a)
    (hv : ∃ c t, v = c :: t ∧ isBlank c = false ∧ c ≠ 'n') :
    (optional r).Gives levels v (some a) := by
  obtain ⟨c, t, rfl, hb, hn⟩ := hv
  intro w rest hw hrest
  have hr := h [] rest blanks_nil hrest
  rw [List.cons_append] at hr ⊢
  rw [optional, skipBlanks_append hw hb]
  split
  · next heq => exact absurd (List.cons.inj heq).1 hn
  · rw [← List.nil_append (c :: (t ++ rest)), hr]
    rfl

/-! ## members -/

/-- where the member `v` comes next, `u` is what is left of it to be read. -/
def Opens (next : Bool → Text → Except Fault (Option Text)) (v u : Text) : Prop :=
  ∀ first pre w rest, Leads first pre → Blanks w →
    next first (pre ++ (w ++ (v ++ rest))) = .ok (some (u ++ rest))

theorem opens_item {v : Text} (h : Begins v) : Opens nextItem v v := by
  obtain ⟨c, hc, t, rfl⟩ := h
  have hb := isBlank_eq_false hc
  have hcomma : c ≠ ',' := fun h => hc (h ▸ by decide)
  have hclose : c ≠ ']' := fun h => hc (h ▸ by decide)
  rintro first pre w rest lead hw
  cases lead with
  | first =>
    rw [List.nil_append, List.cons_append, nextItem, skipBlanks_append hw hb]
    split
    · next heq => cases heq
    · next heq => exact absurd (List.cons.inj heq).1 hclose
    · next heq => exact absurd (List.cons.inj heq).1 hcomma
    · rfl
  | @later w' hw' =>
    rw [List.append_assoc, List.singleton_append, List.cons_append, nextItem,
      skipBlanks_append hw' rfl]
    simp only [Bool.false_eq_true, if_false, skipBlanks_append hw hb]
    split
    · next heq => cases heq
    · next heq => exact absurd (List.cons.inj heq).1 hclose
    · rfl

theorem opens_key (t : Text) : Opens nextKey ('"' :: t) t := by
  rintro first pre w rest lead hw
  cases lead with
  | first =>
    rw [List.nil_append, List.cons_append, nextKey, skipBlanks_append hw rfl]
    rfl
  | @later w' hw' =>
    rw [List.append_assoc, List.singleton_append, List.cons_append, nextKey,
      skipBlanks_append hw' rfl]
    simp only [Bool.false_eq_true, if_false, skipBlanks_append hw (c := '"') rfl]

/-- what is put together of the members, however each of them is written -/
inductive Steps (next : Bool → Text → Except Fault (Option Text)) (member : σ → Text → Outcome σ)
    (P : α → Text → Prop) : List α → σ → σ → Prop
  | done (s : σ) : Steps next member P [] s s
  | step {a : α} {as : List α} {s s' s'' : σ}
      (reads : ∀ v, P a v → ∃ u, Opens next v u ∧
        ∀ rest, Closes rest → member s (u ++ rest) = .ok (s', rest))
      (rest : Steps next member P as s' s'') : Steps next member P (a :: as) s s''

/-- one member is put to the others -/
theorem gather_step {next : Bool → Text → Except Fault (Option Text)}
    {member : σ → Text → Outcome σ} {n : Nat} {first : Bool} {r s : σ} {t u v : Text}
    (hnext : next first t = .ok (some u)) (hmember : member r u = .ok (s, v)) :
    gather next member (n + 1) first r t = gather next member n false s v := by
  simp only [gather, hnext, hmember]

theorem gather_end {next : Bool → Text → Except Fault (Option Text)}
    {member : σ → Text → Outcome σ} {n : Nat} {first : Bool} {s : σ} {t : Text}
    (hnext : next first t = .ok none) : gather next member (n + 1) first s t = .ok (s, t) := by
  simp only [gather, hnext]

/-- **Members with commas between them**, up to the bracket `c` that closes them. -/
theorem gather_row {next : Bool → Text → Except Fault (Option Text)} {member : σ → Text → Outcome σ}
    {P : α → Text → Prop} {c : Char} (hc : c ∈ closers) {rest : Text}
    (hend : ∀ first w, Blanks w → next first (w ++ c :: rest) = .ok none) {as : List α} {t : Text}
    (row : Row P as t) : ∀ {s s' : σ}, Steps next member P as s s' →
      ∀ {first : Bool} {pre : Text}, Leads first pre → (as = [] → first = true) →
        ∀ n, as.length < n →
          ∃ w, Blanks w ∧ gather next member n first s (pre ++ (t ++ c :: rest)) =
            .ok (s', w ++ c :: rest) := by
  -- a member, with the blanks behind it and what closes it
  have hstep : ∀ {a : α} {as : List α} {s s'' : σ}, Steps next member P (a :: as) s s'' →
      ∀ {v : Text}, P a v → ∀ {first : Bool} {pre w rest : Text}, Leads first pre → Blanks w →
        Closes rest → ∃ s', Steps next member P as s' s'' ∧ ∀ n,
          gather next member (n + 1) first s (pre ++ (w ++ (v ++ rest))) =
            gather next member n false s' rest := by
    intro a as s s'' steps v hv first pre w rest lead hw hrest
    cases steps with
    | @step _ _ _ s' _ reads steps =>
      obtain ⟨u, hopens, hmember⟩ := reads v hv
      exact ⟨s', steps, fun n => gather_step (hopens first pre w rest lead hw) (hmember rest hrest)⟩
  induction row with
  | @nil w hw =>
    intro s s' steps first pre lead hfirst n hn
    obtain ⟨n, rfl⟩ : ∃ k, n = k + 1 := ⟨n - 1, by simp at hn; omega⟩
    obtain rfl := hfirst rfl
    cases lead
    cases steps
    exact ⟨w, hw, gather_end (hend true w hw)⟩
  | @one a v w w' hw hv hw' =>
    intro s s' steps first pre lead _ n hn
    obtain ⟨n, rfl⟩ : ∃ k, n = k + 2 := ⟨n - 2, by simp at hn; omega⟩
    obtain ⟨s₁, steps, hgather⟩ :=
      hstep steps hv lead hw (closes_append hw' ⟨c, hc, rest, rfl⟩)
    cases steps
    refine ⟨w', hw', ?_⟩
    rw [List.append_assoc, List.append_assoc, hgather]
    exact gather_end (hend false w' hw')
  | @more a as v w w' t hw hv hw' row hne ih =>
    intro s s' steps first pre lead _ n hn
    obtain ⟨n, rfl⟩ : ∃ k, n = k + 1 := ⟨n - 1, by simp at hn; omega⟩
    have hcloses : Closes (w' ++ ',' :: (t ++ c :: rest)) :=
      closes_append hw' ⟨',', by decide, _, rfl⟩
    obtain ⟨s₁, steps, hgather⟩ := hstep steps hv lead hw hcloses
    obtain ⟨w'', hw'', hrest⟩ :=
      ih steps (.later hw') (fun h => absurd h hne) n (by simp at hn; omega)
    refine ⟨w'', hw'', ?_⟩
    rw [List.append_assoc, List.append_assoc, List.append_assoc, List.cons_append, hgather, ← hrest,
      List.append_assoc, List.singleton_append]

theorem length_le_row {P : α → Text → Prop} {as : List α} {t : Text} (h : Row P as t) :
    as.length ≤ t.length + 1 := by
  induction h with
  | nil => exact Nat.zero_le _
  | one => exact Nat.le_add_left _ _
  | more _ _ _ _ _ ih =>
    simp only [List.length_cons, List.length_append]
    omega

theorem nextItem_end (rest : Text) (first : Bool) (w : Text) (hw : Blanks w) :
    nextItem first (w ++ ']' :: rest) = .ok none := by
  simp only [nextItem, skipBlanks_append hw (c := ']') rfl]

theorem nextKey_end (rest : Text) (first : Bool) (w : Text) (hw : Blanks w) :
    nextKey first (w ++ '\x7d' :: rest) = .ok none := by
  simp only [nextKey, skipBlanks_append hw (c := '\x7d') rfl]

/-! ## lists -/

theorem gives_list {r : Reader α} {P : α → Text → Prop} {levels : Nat} (hl : 2 ≤ levels)
    (hP : ∀ a v, P a v → Begins v ∧ r.Gives (levels - 1) v a) {as : List α} {t : Text}
    (h : ListOf P as t) : (list r).Gives levels t as := by
  obtain ⟨u, row, rfl⟩ := h
  have hsteps : ∀ (as bs : List α), Steps nextItem
      (fun vs t => (r (levels - 1) t).map fun p => (p.1 :: vs, p.2)) P as bs (as.reverse ++ bs) := by
    intro as
    induction as with
    | nil => exact fun bs => .done bs
    | cons a as ih =>
      intro bs
      rw [List.reverse_cons, List.append_assoc]
      refine .step (fun v hv => ⟨v, opens_item (hP a v hv).1, fun rest hrest => ?_⟩) (ih (a :: bs))
      rw [← List.nil_append (v ++ rest), (hP a v hv).2 [] rest blanks_nil hrest]
      rfl
  intro w rest hw _
  have hlen : as.length < (u ++ ']' :: rest).length + 1 := by
    have h := length_le_row row
    rw [List.length_append, List.length_cons]
    omega
  obtain ⟨w', hw', hgather⟩ := gather_row (by decide) (nextItem_end rest) row (hsteps as [])
    .first (fun _ => rfl) _ hlen
  rw [List.nil_append] at hgather
  rw [List.cons_append, List.append_assoc, List.singleton_append, list, skipBlanks_append hw rfl]
  show enclosed .list '[' levels _ (items r) = _
  rw [enclosed, if_neg (by omega), items, hgather]
  show Bracket.settle .list (.ok ((as.reverse ++ []).reverse, w' ++ ']' :: rest)) = _
  rw [List.append_nil, List.reverse_reverse, settle_list _ hw']

theorem gives_strings (expected : Text) {levels : Nat} (hl : 2 ≤ levels) {ts : List Text} {t : Text}
    (h : ListOf Quotes ts t) : (list (text expected)).Gives levels t ts :=
  gives_list hl (fun _ _ hq => ⟨begins_quotes hq, gives_text expected _ hq⟩) h

/-! ## records -/

theorem gives_put {r : Reader α} {levels : Nat} {v : Text} {a : α} (h : r.Gives levels v a)
    (put : α → σ → σ) : Gives (fun levels t => (r levels t).map fun p => (put p.1, p.2)) levels v
      (put a) := by
  intro w rest hw hrest
  show (r levels _).map _ = _
  rw [h w rest hw hrest]
  rfl

theorem gives_needed {r : Reader α} {levels : Nat} {v : Text} {a : α} (h : r.Gives levels v a)
    (key : Text) (put : α → σ → σ) : (Member.needed key r put).read.Gives levels v (put a) :=
  gives_put h put

theorem gives_free {r : Reader α} {levels : Nat} {v : Text} {a : α} (h : r.Gives levels v a)
    (key : Text) (put : α → σ → σ) : (Member.free key r put).read.Gives levels v (put a) :=
  gives_put h put

/-- what the fields of an object put into a record, one after the other; those that no member is
named by are passed over -/
inductive Fills (ms : List (Member σ)) (levels : Nat) : List (Text × Text) → σ → σ → Prop
  | done (s : σ) : Fills ms levels [] s s
  | field {key v : Text} {fs : List (Text × Text)} {s s' : σ} (m : Member σ) (put : σ → σ)
      (named : ms.find? (·.key = key) = some m) (reads : m.read.Gives levels v put)
      (rest : Fills ms levels fs (put s) s') : Fills ms levels ((key, v) :: fs) s s'
  | other {key v : Text} {fs : List (Text × Text)} {s s' : σ}
      (unknown : ms.find? (·.key = key) = none) (skips : Skips v)
      (rest : Fills ms levels fs s s') : Fills ms levels ((key, v) :: fs) s s'

/-- the keys of fields that name a member -/
def known (ms : List (Member σ)) (fs : List (Text × Text)) : List Text :=
  (fs.map (·.1)).filter fun key => (ms.find? (·.key = key)).isSome

theorem known_cons_of_some {ms : List (Member σ)} {m : Member σ} {key : Text}
    (h : ms.find? (·.key = key) = some m) (v : Text) (fs : List (Text × Text)) :
    known ms ((key, v) :: fs) = key :: known ms fs := by
  rw [known, List.map_cons, List.filter_cons, if_pos (by rw [h]; rfl), known]

theorem known_cons_of_none {ms : List (Member σ)} {key : Text}
    (h : ms.find? (·.key = key) = none) (v : Text) (fs : List (Text × Text)) :
    known ms ((key, v) :: fs) = known ms fs := by
  rw [known, List.map_cons, List.filter_cons, if_neg (by rw [h]; exact Bool.false_ne_true), known]

theorem mem_known {ms : List (Member σ)} {m : Member σ} (hm : m ∈ ms) {fs : List (Text × Text)}
    (h : m.key ∈ fs.map (·.1)) : m.key ∈ known ms fs :=
  List.mem_filter.mpr ⟨h, List.find?_isSome.mpr ⟨m, hm, decide_eq_true rfl⟩⟩

theorem nodup_known (ms : List (Member σ)) {fs : List (Text × Text)} (h : (fs.map (·.1)).Nodup) :
    (known ms fs).Nodup := h.filter _

theorem field_append (r : Reader α) (levels : Nat) {w : Text} (hw : Blanks w) (t : Text) :
    field r levels (w ++ ':' :: t) = r levels t := by
  rw [field, colon_append hw]
  rfl

theorem named_cases {f : Text × Text} {t : Text} (h : Named f t) :
    ∃ u w w', SpellsAll f.1 u ∧ Blanks w ∧ Blanks w' ∧
      t = '"' :: (u ++ '"' :: (w ++ ':' :: (w' ++ f.2))) := by
  obtain ⟨_, ⟨u, hu, rfl⟩, w, w', hw, hw', rfl⟩ := h
  refine ⟨u, w, w', hu, hw, hw', ?_⟩
  rw [List.cons_append, List.append_assoc, List.singleton_append]

/-- the fields of an object are the steps of reading it -/
theorem Fills.steps {ms : List (Member σ)} {levels : Nat} {fs : List (Text × Text)} {s s' : σ}
    (h : Fills ms levels fs s s') : ∀ keys : List Text, (known ms fs).Nodup →
      (∀ key ∈ known ms fs, key ∉ keys) →
      Steps nextKey (recordField ms levels) Named fs (keys, s) ((known ms fs).reverse ++ keys, s') := by
  induction h with
  | done s => exact fun keys _ _ => .done _
  | @field key v fs s s' m put named reads _ ih =>
    intro keys hnodup hkeys
    rw [known_cons_of_some named] at hnodup hkeys ⊢
    obtain ⟨hkey, hnodup⟩ := List.nodup_cons.mp hnodup
    have hnew : keys.contains key = false := by
      rw [List.contains_eq_mem]
      exact decide_eq_false (hkeys key List.mem_cons_self)
    rw [List.reverse_cons, List.append_assoc]
    refine .step ?_ (ih (key :: keys) hnodup ?_)
    · intro t ht
      obtain ⟨u, w, w', hu, hw, hw', rfl⟩ := named_cases ht
      refine ⟨_, opens_key _, fun rest hrest => ?_⟩
      simp only [List.append_assoc, List.cons_append, recordField, characters_spelled hu, named, hnew,
        Bool.false_eq_true, if_false, field_append m.read levels hw, reads w' rest hw' hrest]
      rfl
    · intro k hk hmem
      rcases List.mem_cons.mp hmem with rfl | hmem
      · exact hkey hk
      · exact hkeys k (List.mem_cons_of_mem _ hk) hmem
  | @other key v fs s s' unknown skips _ ih =>
    intro keys hnodup hkeys
    rw [known_cons_of_none unknown] at hnodup hkeys ⊢
    refine .step ?_ (ih keys hnodup hkeys)
    intro t ht
    obtain ⟨u, w, w', hu, hw, hw', rfl⟩ := named_cases ht
    refine ⟨_, opens_key _, fun rest hrest => ?_⟩
    simp only [List.append_assoc, List.cons_append, recordField, characters_spelled hu, unknown,
      colon_append hw]
    show (skip _).map _ = _
    rw [skips w' rest hw' hrest]
    rfl

/-- **A record is read from an object that has its fields once each**, those that are needed among
them. -/
theorem record_object (expected : Text) {ms : List (Member σ)} {levels : Nat} (hl : 2 ≤ levels)
    {fs : List (Text × Text)} {s s' : σ} (h : Fills ms (levels - 1) fs s s')
    (hnodup : (known ms fs).Nodup) (hneeded : ∀ m ∈ ms, m.required → m.key ∈ fs.map (·.1))
    {t w : Text} (ht : ObjectOf fs t) (hw : Blanks w) (rest : Text) :
    record expected ms s levels (w ++ (t ++ rest)) = .ok (s', rest) := by
  obtain ⟨u, row, rfl⟩ := ht
  have hlen : fs.length < (u ++ '\x7d' :: rest).length + 1 := by
    have h := length_le_row row
    rw [List.length_append, List.length_cons]
    omega
  obtain ⟨w', hw', hgather⟩ := gather_row (by decide) (nextKey_end rest) row
    (h.steps [] hnodup fun _ _ => List.not_mem_nil) .first (fun _ => rfl) _ hlen
  have hall : ms.find? (fun m => m.required && !((known ms fs).reverse ++ []).contains m.key) =
      none := by
    rw [List.find?_eq_none]
    intro m hm hlack
    rw [Bool.and_eq_true, List.append_nil, Bool.not_eq_true', List.contains_eq_mem,
      decide_eq_false_iff_not, List.mem_reverse] at hlack
    exact hlack.2 (mem_known hm (hneeded m hm hlack.1))
  have hfields : recordFields ms s (levels - 1) (u ++ '\x7d' :: rest) =
      .ok (s', w' ++ '\x7d' :: rest) := by
    rw [List.nil_append] at hgather
    simp only [recordFields, hgather, hall]
  rw [List.cons_append, List.append_assoc, List.singleton_append, record, skipBlanks_append hw rfl]
  show enclosed .object '\x7b' levels _ (recordFields ms s) = _
  rw [enclosed, if_neg (by omega), hfields, settle_object _ hw']

theorem run_eq_ok {r : Reader α} {t w : Text} {a : α} (hw : Blanks w)
    (h : r maxLevels t = .ok (a, w)) : run r t = .ok a := by
  have hskip : skipBlanks w = [] := by
    rw [skipBlanks, ← List.append_nil w, List.dropWhile_append_of_pos hw]
    rfl
  simp only [run, h, hskip]

end Reader

/-! ## values without blanks -/

theorem row_join {α : Type} {P : α → Text → Prop} {f : α → Text} (h : ∀ a, P a (f a))
    (as : List α) : Row P as (Text.join [','] (as.map f)) := by
  induction as with
  | nil => exact .nil blanks_nil
  | cons a as ih =>
    cases as with
    | nil =>
      have hone : Row P [a] ([] ++ (f a ++ [])) := .one blanks_nil (h a) blanks_nil
      rwa [List.nil_append, List.append_nil] at hone
    | cons b as =>
      have hmore : Row P (a :: b :: as)
          ([] ++ (f a ++ ([] ++ ',' :: Text.join [','] ((b :: as).map f)))) :=
        .more blanks_nil (h a) blanks_nil ih (List.cons_ne_nil b as)
      rw [List.nil_append, List.nil_append] at hmore
      show Row P (a :: b :: as) (f a ++ [','] ++ Text.join [','] ((b :: as).map f))
      rwa [List.append_assoc, List.singleton_append]

theorem compactItems_eq_join (vs : List Json) :
    compactItems true vs = Text.join [','] (vs.map compact) := by
  cases vs with
  | nil => rfl
  | cons v vs =>
    rw [compactItems, if_pos rfl, List.nil_append]
    induction vs generalizing v with
    | nil => exact List.append_nil _
    | cons v' vs ih =>
      show _ = compact v ++ [','] ++ Text.join [','] ((v' :: vs).map compact)
      rw [compactItems, if_neg Bool.false_ne_true, List.append_assoc [','], ih, List.append_assoc]

/-- a field without blanks, its value as it is written -/
def fieldText (f : Text × Text) : Text := quote f.1 ++ ':' :: f.2

theorem named_fieldText (f : Text × Text) : Named f (fieldText f) :=
  ⟨_, quotes_quote f.1, [], [], blanks_nil, blanks_nil, rfl⟩

/-- the fields of an object with their values as they are written -/
def written (fs : List (Text × Json)) : List (Text × Text) := fs.map fun f => (f.1, f.2.compact)

theorem compactFields_eq_join (fs : List (Text × Json)) :
    compactFields true fs = Text.join [','] ((written fs).map fieldText) := by
  cases fs with
  | nil => rfl
  | cons f fs =>
    rw [compactFields, if_pos rfl, List.nil_append]
    induction fs generalizing f with
    | nil => exact List.append_nil _
    | cons f' fs ih =>
      show _ = quote f.1 ++ ':' :: f.2.compact ++ [','] ++
        Text.join [','] ((written (f' :: fs)).map fieldText)
      rw [compactFields, if_neg Bool.false_ne_true, List.append_assoc [','], List.append_assoc [','],
        ih]
      exact (List.append_assoc _ _ _).symm

theorem listOf_strings (ts : List Text) : ListOf Quotes ts (strings ts).compact := by
  refine ⟨compactItems true (ts.map string), ?_, rfl⟩
  rw [compactItems_eq_join, List.map_map]
  exact row_join quotes_quote ts

theorem objectOf_compact (fs : List (Text × Json)) : ObjectOf (written fs) (object fs).compact := by
  refine ⟨compactFields true fs, ?_, rfl⟩
  rw [compactFields_eq_join]
  exact row_join named_fieldText (written fs)

end StorySuite.Json
