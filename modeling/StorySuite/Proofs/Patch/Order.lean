import StorySuite.Patch.Chunk
import StorySuite.Proofs.Patch.Accepted

/-!
# The order in which edits take effect

`Edit.arrange` sorts edits by the place where they begin, insertions before the replacement that
begins there, and keeps the order in which they came otherwise.

* `arrange_perm`, `arrange_sorted`, `filter_arrange`   it is a stable sort;
* `Edit.Laid t n es`    the edits `es` lie side by side in `t`, from byte `n` on;
* `laid_arrange`        so do the arranged edits of a sound patch.

`Laid` is the form in which the chunks of a patch are read off, so everything that is said of them
is proved by induction on it.
-/

namespace StorySuite

namespace Edit

theorem notAfter_iff {e f : Edit} :
    e.notAfter f = true ↔ e.start < f.start ∨ e.start = f.start ∧
      ¬ ∃ a b s p t, e = .replace a b s ∧ f = .insert p t := by
  unfold notAfter
  cases e <;> cases f <;> simp

theorem notAfter_total (e f : Edit) (h : ¬ e.notAfter f = true) : f.notAfter e = true := by
  rw [notAfter_iff] at h ⊢
  cases e <;> cases f <;> simp at h ⊢ <;> omega

theorem notAfter_trans {e f g : Edit} (h1 : e.notAfter f = true) (h2 : f.notAfter g = true) :
    e.notAfter g = true := by
  rw [notAfter_iff] at h1 h2 ⊢
  cases e <;> cases f <;> cases g <;> simp at h1 h2 ⊢ <;> omega

theorem start_le {e f : Edit} (h : e.notAfter f = true) : e.start ≤ f.start := by
  rw [notAfter_iff] at h
  omega

/-! ## a stable sort -/

theorem place_perm (e : Edit) (es : List Edit) : (place e es).Perm (e :: es) := by
  induction es with
  | nil => exact List.Perm.refl _
  | cons f fs ih =>
    unfold place
    by_cases h : e.notAfter f = true
    · rw [if_pos h]
    · rw [if_neg h]
      exact (ih.cons f).trans (List.Perm.swap e f fs)

theorem arrange_perm (es : List Edit) : (arrange es).Perm es := by
  induction es with
  | nil => exact List.Perm.refl _
  | cons e es ih => exact (place_perm e (arrange es)).trans (ih.cons e)

theorem mem_arrange {e : Edit} {es : List Edit} : e ∈ arrange es ↔ e ∈ es :=
  (arrange_perm es).mem_iff

theorem place_sorted (e : Edit) {es : List Edit}
    (h : es.Pairwise fun a b => a.notAfter b = true) :
    (place e es).Pairwise fun a b => a.notAfter b = true := by
  induction es with
  | nil => exact List.pairwise_singleton _ _
  | cons f fs ih =>
    obtain ⟨hf, hfs⟩ := List.pairwise_cons.mp h
    unfold place
    by_cases hef : e.notAfter f = true
    · rw [if_pos hef]
      refine List.pairwise_cons.mpr ⟨?_, h⟩
      intro g hg
      rcases List.mem_cons.mp hg with rfl | hg
      · exact hef
      · exact notAfter_trans hef (hf g hg)
    · rw [if_neg hef]
      refine List.pairwise_cons.mpr ⟨?_, ih hfs⟩
      intro g hg
      rcases List.mem_cons.mp ((place_perm e fs).mem_iff.mp hg) with rfl | hg
      · exact notAfter_total _ _ hef
      · exact hf g hg

theorem arrange_sorted (es : List Edit) :
    (arrange es).Pairwise fun a b => a.notAfter b = true := by
  induction es with
  | nil => exact List.Pairwise.nil
  | cons e es ih => exact place_sorted e ih

section
variable {f : Edit → Bool} (hf : ∀ a b, f a = true → f b = true → a.notAfter b = true)
include hf

theorem filter_place (e : Edit) (es : List Edit) :
    (place e es).filter f = (e :: es).filter f := by
  induction es with
  | nil => rfl
  | cons g gs ih =>
    unfold place
    by_cases h : e.notAfter g = true
    · rw [if_pos h]
    · rw [if_neg h, List.filter_cons, ih]
      -- `g` comes before `e`, so they are not both kept
      by_cases hg : f g = true
      · have he : ¬ f e = true := fun he => h (hf e g he hg)
        simp [hg, he]
      · simp [List.filter_cons, hg]

/-- **Edits none of which comes before another keep the order in which they came.** -/
theorem filter_arrange (es : List Edit) : (arrange es).filter f = es.filter f := by
  induction es with
  | nil => rfl
  | cons e es ih =>
    show (place e (arrange es)).filter f = _
    rw [filter_place hf, List.filter_cons, List.filter_cons, ih]

end

/-! ## edits side by side -/

/-- the edits lie side by side in `t`, none of them in front of byte `n` -/
def Laid (t : Text) : Nat → List Edit → Prop
  | n, [] => t.isBoundary n = true
  | n, insert p _ :: es => t.isBoundary n = true ∧ n ≤ p ∧ Laid t p es
  | n, replace a b _ :: es =>
    t.isBoundary n = true ∧ n ≤ a ∧ a < b ∧ t.isBoundary a = true ∧ Laid t b es

theorem Laid.boundary {t : Text} {n : Nat} {es : List Edit} (h : Laid t n es) :
    t.isBoundary n = true := by
  cases es with
  | nil => exact h
  | cons e es => cases e <;> exact h.1

/-- where an edit begins that is laid from byte `n` on -/
theorem Laid.le_start {t : Text} {n : Nat} {es : List Edit} (h : Laid t n es) :
    ∀ e ∈ es, n ≤ e.start := by
  induction es generalizing n with
  | nil => exact fun e he => absurd he List.not_mem_nil
  | cons f es ih =>
    intro e he
    cases f with
    | insert p s =>
      obtain ⟨-, hp, hes⟩ := h
      rcases List.mem_cons.mp he with rfl | he
      · exact hp
      · exact Nat.le_trans hp (ih hes e he)
    | replace a b s =>
      obtain ⟨-, ha, hab, -, hes⟩ := h
      rcases List.mem_cons.mp he with rfl | he
      · exact ha
      · have := ih hes e he
        omega

/-- what comes after a replacement and is apart from it begins behind it -/
theorem stop_le_start {a b : Nat} {s t : Text} {f : Edit} (hf : f.Fits t)
    (h : (replace a b s).notAfter f = true) (hap : (replace a b s).Apart f) : b ≤ f.start := by
  rw [notAfter_iff] at h
  cases f with
  | insert p u =>
    simp only [start, Apart] at h hap ⊢
    rcases h with h | ⟨-, h⟩
    · omega
    · exact absurd ⟨a, b, s, p, u, rfl, rfl⟩ h
  | replace a' b' u =>
    obtain ⟨-, -, hlt⟩ := hf
    simp only [start, Apart] at h hap ⊢
    omega

theorem laid_of_sorted {t : Text} {n : Nat} {es : List Edit} (hn : t.isBoundary n = true)
    (hfit : ∀ e ∈ es, e.Fits t) (hs : es.Pairwise fun a b => a.notAfter b = true)
    (hap : es.Pairwise Apart) (hle : ∀ e ∈ es, n ≤ e.start) : Laid t n es := by
  induction es generalizing n with
  | nil => exact hn
  | cons e es ih =>
    obtain ⟨hs1, hs2⟩ := List.pairwise_cons.mp hs
    obtain ⟨ha1, ha2⟩ := List.pairwise_cons.mp hap
    have hfit' : ∀ f ∈ es, f.Fits t := fun f hf => hfit f (List.mem_cons_of_mem _ hf)
    have he := hfit e List.mem_cons_self
    have hne := hle e List.mem_cons_self
    cases e with
    | insert p s =>
      exact ⟨hn, hne, ih he hfit' hs2 ha2 fun f hf => start_le (hs1 f hf)⟩
    | replace a b s =>
      obtain ⟨hba, hbb, hab⟩ := he
      exact ⟨hn, hne, hab, hba, ih hbb hfit' hs2 ha2 fun f hf =>
        stop_le_start (hfit' f hf) (hs1 f hf) (ha1 f hf)⟩

end Edit

/-- **The arranged edits of a sound patch lie side by side.** -/
theorem Patch.Sound.laid_arrange {p : Patch} (hp : p.Sound) :
    Edit.Laid p.text 0 (Edit.arrange p.edits) := by
  refine Edit.laid_of_sorted (Text.isBoundary_zero _) ?_ (Edit.arrange_sorted _) ?_ ?_
  · exact fun e he => hp.fits e (Edit.mem_arrange.mp he)
  · exact ((Edit.arrange_perm p.edits).pairwise_iff fun h => Edit.Apart.symm h).mpr hp.apart
  · exact fun e _ => Nat.zero_le _

end StorySuite
