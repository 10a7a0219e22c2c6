import StorySuite.Patch.Basic
import StorySuite.Proofs.Text.Cut

/-!
# What a patch accepts

An accepted patch is `Sound`: its edits cut the text between characters only, and no two of them
meet.  Against a sound patch an edit is accepted exactly when the patch stays sound:

* `Edit.Fits`, `Edit.Apart`    an edit on its own, and two edits beside each other;
* `Patch.Sound`                all edits fit and any two are apart;
* `Edit.ofOverwrite`           what an overwrite is recorded as;
* `insert_ok_iff`, `overwrite_ok_iff`   when an edit is accepted, and what the patch is then;
* `Patch.Admits p n`           whether the patch can take an insertion in front of byte `n`;
* `Patch.Request`, `Patch.makeAll`      a run of edits, which ends at the first refusal;
* `sound_of_makeAll`           every patch that a run makes is sound.
-/

namespace StorySuite

namespace Edit

/-- the edit cuts `t` between characters only, and replaces something if it replaces at all -/
def Fits (t : Text) : Edit → Prop
  | insert p _ => t.isBoundary p = true
  | replace a b _ => t.isBoundary a = true ∧ t.isBoundary b = true ∧ a < b

/-- neither edit undoes the other -/
def Apart : Edit → Edit → Prop
  | insert _ _, insert _ _ => True
  | insert p _, replace a b _ => p ≤ a ∨ b ≤ p
  | replace a b _, insert p _ => p ≤ a ∨ b ≤ p
  | replace a b _, replace a' b' _ => b ≤ a' ∨ b' ≤ a

theorem Apart.symm {e f : Edit} (h : e.Apart f) : f.Apart e := by
  cases e with
  | insert p s =>
    cases f with
    | insert q s' => exact trivial
    | replace a b s' => exact h
  | replace a b s =>
    cases f with
    | insert q s' => exact h
    | replace a' b' s' => exact Or.symm h

theorem covers_eq_false {e : Edit} {p : Nat} {t : Text} :
    e.covers p = false ↔ e.Apart (.insert p t) := by
  cases e with
  | insert q s => simp [covers, Apart]
  | replace a b s =>
    simp only [covers, Apart, Bool.and_eq_false_iff, decide_eq_false_iff_not]
    omega

theorem not_overlaps_iff {e : Edit} {a b : Nat} {t s : Text} (he : e.Fits s) :
    (e.overlaps a b = false ∧ e.insertsInside a b = false) ↔ e.Apart (.replace a b t) := by
  cases e with
  | insert q s =>
    simp only [overlaps, insertsInside, Apart, Bool.and_eq_false_iff, decide_eq_false_iff_not,
      true_and]
    omega
  | replace a' b' s =>
    obtain ⟨-, -, hlt⟩ := he
    simp only [overlaps, insertsInside, Apart, Bool.and_eq_false_iff, decide_eq_false_iff_not,
      and_true]
    omega

/-- **What an overwrite is recorded as**: nothing if it changes nothing, an insertion if it keeps
all that it was to replace, and otherwise a replacement. -/
def ofOverwrite (text : Text) (a b : Nat) (t : Text) : List Edit :=
  match Text.dropTail? (text.slice a b) t with
  | some [] => []
  | some added => [.insert a added]
  | none => [.replace a b t]

/-- an empty range is never replaced -/
theorem fits_of_mem_ofOverwrite {text : Text} {a b : Nat} {t : Text} {e : Edit}
    (ha : text.isBoundary a = true) (hb : text.isBoundary b = true) (hab : a ≤ b)
    (he : e ∈ ofOverwrite text a b t) : e.Fits text := by
  unfold ofOverwrite at he
  split at he
  · cases he
  · rw [List.mem_singleton] at he
    rw [he]
    exact ha
  · next hnone =>
    rw [List.mem_singleton] at he
    rw [he]
    refine ⟨ha, hb, ?_⟩
    rcases Nat.lt_or_ge a b with h | h
    · exact h
    · exfalso
      have e : a = b := Nat.le_antisymm hab h
      rw [e, Text.slice_self] at hnone
      have h' := Text.dropTail?_append t []
      rw [List.append_nil, hnone] at h'
      cases h'

/-- an overwrite that keeps all that it was to replace -/
theorem ofOverwrite_keep {u : Text} (hu : u ≠ []) (text : Text) (a b : Nat) :
    ofOverwrite text a b (u ++ text.slice a b) = [.insert a u] := by
  unfold ofOverwrite
  rw [Text.dropTail?_append]
  cases u with
  | nil => exact absurd rfl hu
  | cons c u => rfl

theorem start_of_mem_ofOverwrite {text : Text} {a b : Nat} {t : Text} {e : Edit}
    (he : e ∈ ofOverwrite text a b t) : e.start = a := by
  unfold ofOverwrite at he
  split at he
  · cases he
  · rw [List.mem_singleton.mp he]
    rfl
  · rw [List.mem_singleton.mp he]
    rfl

/-- the edit changes nothing outside the bytes from `a` to `b` -/
def Within (a b : Nat) : Edit → Prop
  | insert p _ => a ≤ p ∧ p ≤ b
  | replace s e _ => a ≤ s ∧ e ≤ b

theorem within_of_mem_ofOverwrite {text : Text} {a b : Nat} {t : Text} {e : Edit} (hab : a ≤ b)
    (he : e ∈ ofOverwrite text a b t) : e.Within a b := by
  unfold ofOverwrite at he
  split at he
  · cases he
  · rw [List.mem_singleton.mp he]
    exact ⟨Nat.le_refl a, hab⟩
  · rw [List.mem_singleton.mp he]
    exact ⟨Nat.le_refl a, Nat.le_refl b⟩

theorem Within.mono {a b a' b' : Nat} {e : Edit} (he : e.Within a b) (ha : a' ≤ a) (hb : b ≤ b') :
    e.Within a' b' := by
  cases e with
  | insert p t => exact ⟨Nat.le_trans ha he.1, Nat.le_trans he.2 hb⟩
  | replace s x t => exact ⟨Nat.le_trans ha he.1, Nat.le_trans he.2 hb⟩

theorem Within.le_start {a b : Nat} {e : Edit} (he : e.Within a b) : a ≤ e.start := by
  cases e <;> exact he.1

/-- edits in ranges beside each other are apart -/
theorem Within.apart {a b c d : Nat} {e f : Edit} (he : e.Within a b) (hf : f.Within c d)
    (hbc : b ≤ c) : e.Apart f := by
  cases e with
  | insert p t =>
    cases f with
    | insert q u => exact trivial
    | replace s x u => exact Or.inl (Nat.le_trans he.2 (Nat.le_trans hbc hf.1))
  | replace s x t =>
    cases f with
    | insert q u => exact Or.inr (Nat.le_trans he.2 (Nat.le_trans hbc hf.1))
    | replace s' x' u => exact Or.inl (Nat.le_trans he.2 (Nat.le_trans hbc hf.1))

/-- outside its range an edit covers nothing -/
theorem Within.covers_eq_false {a b n : Nat} {e : Edit} (he : e.Within a b)
    (hn : n ≤ a ∨ b ≤ n) : e.covers n = false := by
  cases e with
  | insert p t => rfl
  | replace s x t =>
    obtain ⟨h1, h2⟩ := he
    simp only [covers, Bool.and_eq_false_iff, decide_eq_false_iff_not]
    omega

end Edit

namespace Patch

variable {p q : Patch}

/-- **No edit of the patch cuts a character or undoes another.** -/
structure Sound (p : Patch) : Prop where
  fits : ∀ e ∈ p.edits, e.Fits p.text
  apart : p.edits.Pairwise Edit.Apart

theorem sound_ofText (t : Text) : (ofText t).Sound :=
  ⟨fun _ he => absurd he List.not_mem_nil, List.Pairwise.nil⟩

theorem Sound.push (hp : p.Sound) {e : Edit} (he : e.Fits p.text)
    (ha : ∀ f ∈ p.edits, f.Apart e) : (p.push e).Sound := by
  refine ⟨?_, ?_⟩
  · intro f hf
    rcases List.mem_append.mp hf with h | h
    · exact hp.fits f h
    · rw [List.mem_singleton.mp h]
      exact he
  · show (p.edits ++ [e]).Pairwise Edit.Apart
    rw [List.pairwise_append]
    refine ⟨hp.apart, List.pairwise_singleton _ _, ?_⟩
    intro f hf g hg
    rw [List.mem_singleton.mp hg]
    exact ha f hf

/-! ## single edits -/

theorem checkOffset_eq_ok {pos : Nat} :
    p.checkOffset pos = .ok () ↔ p.text.isBoundary pos = true := by
  unfold checkOffset
  split <;> simp_all

theorem conflict_eq_ok {f : Edit → Bool} {r : Edit → Refusal} :
    p.conflict f r = .ok () ↔ ∀ e ∈ p.edits, f e = false := by
  unfold conflict
  cases h : p.edits.find? f with
  | none =>
    have h' := List.find?_eq_none.mp h
    simp only [true_iff]
    intro e he
    simpa using h' e he
  | some e =>
    simp only [reduceCtorEq, false_iff]
    intro hall
    have h1 := List.find?_some h
    rw [hall e (List.mem_of_find?_eq_some h)] at h1
    cases h1

/-- an outcome that only guards what follows -/
theorem guard_bind_eq_ok {ε α : Type} {x : Except ε Unit} {f : Unit → Except ε α} {a : α} :
    (x >>= f) = .ok a ↔ x = .ok () ∧ f () = .ok a := by
  cases x with
  | error e => simp [bind, Except.bind]
  | ok u => simp [bind, Except.bind]

/-- **An insertion is accepted exactly when it fits and is apart from every edit before it.** -/
theorem insert_ok_iff {pos : Nat} {t : Text} :
    p.insert pos t = .ok q ↔
      (Edit.insert pos t).Fits p.text ∧ (∀ e ∈ p.edits, e.Apart (.insert pos t)) ∧
        q = p.push (.insert pos t) := by
  unfold insert
  rw [guard_bind_eq_ok, guard_bind_eq_ok, checkOffset_eq_ok, conflict_eq_ok]
  have h1 : (∀ e ∈ p.edits, e.covers pos = false) ↔ ∀ e ∈ p.edits, e.Apart (.insert pos t) :=
    forall₂_congr fun e _ => Edit.covers_eq_false
  rw [h1]
  constructor
  · rintro ⟨hb, ha, hq⟩
    exact ⟨hb, ha, (Except.ok.inj hq).symm⟩
  · rintro ⟨hb, ha, rfl⟩
    exact ⟨hb, ha, rfl⟩

/-- **An overwrite is accepted exactly when its range is one of the text and what it is recorded
as is apart from every edit before it.** -/
theorem overwrite_ok_iff (hp : p.Sound) {a b : Nat} {t : Text} :
    p.overwrite a b t = .ok q ↔
      (a ≤ b ∧ p.text.isBoundary a = true ∧ p.text.isBoundary b = true) ∧
        (∀ f ∈ Edit.ofOverwrite p.text a b t, ∀ e ∈ p.edits, e.Apart f) ∧
          q = ⟨p.text, p.edits ++ Edit.ofOverwrite p.text a b t⟩ := by
  unfold overwrite Edit.ofOverwrite
  by_cases hab : b < a
  · have : ¬ a ≤ b := by omega
    simp [hab, this, bind, Except.bind]
  have hle : a ≤ b := by omega
  rw [if_neg hab, guard_bind_eq_ok, guard_bind_eq_ok, checkOffset_eq_ok, checkOffset_eq_ok]
  cases h : Text.dropTail? (p.text.slice a b) t with
  | none =>
    show _ ∧ _ ∧ (_ >>= _) = _ ↔ _
    rw [guard_bind_eq_ok, guard_bind_eq_ok, conflict_eq_ok, conflict_eq_ok]
    constructor
    · rintro ⟨ha, hb, ho, hi, hq⟩
      refine ⟨⟨hle, ha, hb⟩, ?_, (Except.ok.inj hq).symm⟩
      intro f hf e he
      rw [List.mem_singleton.mp hf]
      exact (Edit.not_overlaps_iff (hp.fits e he)).mp ⟨ho e he, hi e he⟩
    · rintro ⟨⟨-, ha, hb⟩, hc, rfl⟩
      have h1 := fun e he =>
        (Edit.not_overlaps_iff (hp.fits e he)).mpr (hc _ (List.mem_singleton.mpr rfl) e he)
      exact ⟨ha, hb, fun e he => (h1 e he).1, fun e he => (h1 e he).2, rfl⟩
  | some added =>
    cases added with
    | nil =>
      constructor
      · rintro ⟨ha, hb, hq⟩
        refine ⟨⟨hle, ha, hb⟩, fun f hf => absurd hf List.not_mem_nil, ?_⟩
        rw [List.append_nil]
        exact (Except.ok.inj hq).symm
      · rintro ⟨⟨-, ha, hb⟩, -, rfl⟩
        refine ⟨ha, hb, ?_⟩
        rw [List.append_nil]
        rfl
    | cons c s =>
      show _ ∧ _ ∧ p.insert a (c :: s) = .ok q ↔ _
      rw [insert_ok_iff]
      constructor
      · rintro ⟨ha, hb, -, hc, hq⟩
        refine ⟨⟨hle, ha, hb⟩, ?_, hq⟩
        intro f hf
        rw [List.mem_singleton.mp hf]
        exact hc
      · rintro ⟨⟨-, ha, hb⟩, hc, hq⟩
        exact ⟨ha, hb, ha, hc _ (List.mem_singleton.mpr rfl), hq⟩

theorem Sound.insert (hp : p.Sound) {pos : Nat} {t : Text} (h : p.insert pos t = .ok q) :
    q.Sound ∧ q.text = p.text := by
  obtain ⟨hf, ha, rfl⟩ := insert_ok_iff.mp h
  exact ⟨hp.push hf ha, rfl⟩

theorem Sound.overwrite (hp : p.Sound) {a b : Nat} {t : Text} (h : p.overwrite a b t = .ok q) :
    q.Sound ∧ q.text = p.text := by
  obtain ⟨⟨hab, ha, hb⟩, hc, rfl⟩ := (overwrite_ok_iff hp).mp h
  have hfit : ∀ e ∈ Edit.ofOverwrite p.text a b t, e.Fits p.text :=
    fun e he => Edit.fits_of_mem_ofOverwrite ha hb hab he
  revert hc hfit
  unfold Edit.ofOverwrite
  split
  · intro _ _
    rw [List.append_nil]
    exact ⟨hp, rfl⟩
  · intro hc hfit
    exact ⟨hp.push (hfit _ (List.mem_singleton.mpr rfl)) (hc _ (List.mem_singleton.mpr rfl)), rfl⟩
  · intro hc hfit
    exact ⟨hp.push (hfit _ (List.mem_singleton.mpr rfl)) (hc _ (List.mem_singleton.mpr rfl)), rfl⟩

/-! ## where a patch can be added to -/

/-- **Byte `n` is a place where the patch can take an insertion.** -/
def Admits (p : Patch) (n : Nat) : Prop :=
  p.text.isBoundary n = true ∧ ∀ e ∈ p.edits, e.covers n = false

def extend (p : Patch) (es : List Edit) : Patch := ⟨p.text, p.edits ++ es⟩

theorem Admits.apart {n : Nat} (h : p.Admits n) (t : Text) :
    ∀ e ∈ p.edits, e.Apart (.insert n t) :=
  fun e he => Edit.covers_eq_false.mp (h.2 e he)

theorem Admits.insert {n : Nat} (h : p.Admits n) (t : Text) :
    p.insert n t = .ok (p.extend [.insert n t]) :=
  insert_ok_iff.mpr ⟨h.1, h.apart t, rfl⟩

/-- insertions close no place -/
theorem Admits.extend {n : Nat} (h : p.Admits n) {es : List Edit}
    (hes : ∀ e ∈ es, ∃ k t, e = .insert k t) : (p.extend es).Admits n := by
  refine ⟨h.1, fun e he => ?_⟩
  rcases List.mem_append.mp he with he | he
  · exact h.2 e he
  · obtain ⟨k, t, rfl⟩ := hes e he
    rfl

theorem extend_extend (p : Patch) (es fs : List Edit) :
    (p.extend es).extend fs = p.extend (es ++ fs) :=
  congrArg (Patch.mk p.text) (List.append_assoc p.edits es fs)

/-- an overwrite beside all edits before it is accepted -/
theorem Sound.overwrite_eq (hp : p.Sound) {a b : Nat} {t : Text} (hab : a ≤ b)
    (ha : p.text.isBoundary a = true) (hb : p.text.isBoundary b = true)
    (hside : ∀ e ∈ p.edits, ∃ c d, e.Within c d ∧ (d ≤ a ∨ b ≤ c)) :
    p.overwrite a b t = .ok (p.extend (Edit.ofOverwrite p.text a b t)) ∧
      (p.extend (Edit.ofOverwrite p.text a b t)).Sound := by
  have hok : p.overwrite a b t = .ok (p.extend (Edit.ofOverwrite p.text a b t)) := by
    refine (overwrite_ok_iff hp).mpr ⟨⟨hab, ha, hb⟩, fun f hf e he => ?_, rfl⟩
    have hf' := Edit.within_of_mem_ofOverwrite hab hf
    obtain ⟨c, d, he', h | h⟩ := hside e he
    · exact he'.apart hf' h
    · exact (hf'.apart he' h).symm
  exact ⟨hok, (hp.overwrite hok).1⟩

/-- insertions where they are admitted leave a patch sound -/
theorem Sound.extend (hp : p.Sound) {es : List Edit}
    (hes : ∀ e ∈ es, ∃ n t, e = .insert n t ∧ p.Admits n) : (p.extend es).Sound := by
  refine ⟨fun e he => ?_, List.pairwise_append.mpr ⟨hp.apart, ?_, ?_⟩⟩
  · rcases List.mem_append.mp he with he | he
    · exact hp.fits e he
    · obtain ⟨n, t, rfl, hn⟩ := hes e he
      exact hn.1
  · refine List.pairwise_of_forall_mem_list fun e he f hf => ?_
    obtain ⟨n, t, rfl, -⟩ := hes e he
    obtain ⟨k, u, rfl, -⟩ := hes f hf
    exact trivial
  · intro e he f hf
    obtain ⟨n, t, rfl, hn⟩ := hes f hf
    exact hn.apart t e he

theorem Sound.extend_insert (hp : p.Sound) {n : Nat} (h : p.Admits n) (t : Text) :
    (p.extend [.insert n t]).Sound :=
  hp.extend fun _ he => ⟨n, t, List.mem_singleton.mp he, h⟩

/-! ## runs -/

/-- an edit as it is asked for -/
inductive Request where
  | insert (pos : Nat) (text : Text)
  | append (text : Text)
  | overwrite (start stop : Nat) (text : Text)
  deriving DecidableEq, Repr

/-- the patch with one more edit, unless it is refused -/
def make (p : Patch) : Request → Except Refusal Patch
  | .insert pos t => p.insert pos t
  | .append t => p.append t
  | .overwrite a b t => p.overwrite a b t

/-- a run of edits -/
def makeAll (p : Patch) (rs : List Request) : Except Refusal Patch := rs.foldlM make p

theorem Sound.make (hp : p.Sound) {r : Request} (h : p.make r = .ok q) :
    q.Sound ∧ q.text = p.text := by
  cases r with
  | insert pos t => exact hp.insert h
  | append t => exact hp.insert h
  | overwrite a b t => exact hp.overwrite h

theorem Sound.makeAll {rs : List Request} (hp : p.Sound) (h : p.makeAll rs = .ok q) :
    q.Sound ∧ q.text = p.text := by
  induction rs generalizing p with
  | nil =>
    cases h
    exact ⟨hp, rfl⟩
  | cons r rs ih =>
    unfold Patch.makeAll at h
    rw [List.foldlM_cons] at h
    cases hr : p.make r with
    | error e =>
      rw [hr] at h
      cases h
    | ok p' =>
      rw [hr] at h
      obtain ⟨h1, h2⟩ := hp.make hr
      obtain ⟨h3, h4⟩ := ih h1 h
      exact ⟨h3, h4.trans h2⟩

/-- **Every run of accepted edits leaves a sound patch of the same text.** -/
theorem sound_of_makeAll {t : Text} {rs : List Request} (h : (ofText t).makeAll rs = .ok p) :
    p.Sound ∧ p.text = t :=
  (sound_ofText t).makeAll h

end Patch

end StorySuite
