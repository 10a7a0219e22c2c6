import StorySuite.SourceMap.Basic
import StorySuite.Proofs.Patch.Refusals

/-!
# Edits in another order

A run of requests goes through exactly when each of them names places to cut at and no two of
their edits meet (`makeAll_ok_iff`).  Nothing in this hangs on the order of the requests, and the
order of the text puts edits in a row whichever came first, insertions at one place apart:

* `Edit.alike`             two edits that the order of the text leaves as they came;
* `eq_of_sorted`           a sorted list is known by its members and the order of the alike ones;
* `arrange_eq_arrange`     edits in another order, sorted;
* `makeAll_perm`           **requests in another order make the same chunks**.
-/

namespace StorySuite

namespace Edit

theorem notAfter_refl (e : Edit) : e.notAfter e = true := by
  rw [notAfter_iff]
  cases e <;> simp

/-- whether two edits take effect in the order they came -/
def alike (e f : Edit) : Bool := e.notAfter f && f.notAfter e

theorem alike_insert (n : Nat) (s : Text) : (insert n s).alike = insertsAt n := by
  funext f
  apply Bool.eq_iff_iff.mpr
  rw [alike, Bool.and_eq_true, notAfter_iff, notAfter_iff]
  cases f <;> simp [insertsAt, start] <;> omega

theorem alike_replace (a b : Nat) (s : Text) : (replace a b s).alike = replacesAt a := by
  funext f
  apply Bool.eq_iff_iff.mpr
  rw [alike, Bool.and_eq_true, notAfter_iff, notAfter_iff]
  cases f <;> simp [replacesAt, start] <;> omega

/-- **A sorted list is known by its members and the order of the alike ones among them.** -/
theorem eq_of_sorted {es fs : List Edit} (he : es.Pairwise fun a b => a.notAfter b = true)
    (hf : fs.Pairwise fun a b => a.notAfter b = true) (hperm : es.Perm fs)
    (halike : ∀ e : Edit, es.filter e.alike = fs.filter e.alike) : es = fs := by
  induction es generalizing fs with
  | nil => exact hperm.nil_eq
  | cons e es ih =>
    cases fs with
    | nil => exact absurd hperm.symm (List.not_perm_nil_cons e es)
    | cons f fs =>
      obtain ⟨he1, he2⟩ := List.pairwise_cons.mp he
      obtain ⟨hf1, hf2⟩ := List.pairwise_cons.mp hf
      have hself : e.alike e = true := by simp [alike, notAfter_refl]
      -- each of the two first ones stands behind the other in the other list
      obtain rfl : e = f := by
        by_contra hne
        have hef : e.notAfter f = true := by
          rcases List.mem_cons.mp (hperm.mem_iff.mpr List.mem_cons_self) with h | h
          · exact absurd h.symm hne
          · exact he1 f h
        have hfe : f.notAfter e = true := by
          rcases List.mem_cons.mp (hperm.mem_iff.mp List.mem_cons_self) with h | h
          · exact absurd h hne
          · exact hf1 e h
        have h := halike e
        have hefa : e.alike f = true := by simp [alike, hef, hfe]
        rw [List.filter_cons_of_pos hself, List.filter_cons_of_pos hefa] at h
        exact hne (List.cons.inj h).1
      congr 1
      apply ih he2 hf2 hperm.cons_inv
      intro g
      have h := halike g
      rw [List.filter_cons, List.filter_cons] at h
      split at h
      · exact (List.cons.inj h).2
      · exact h

/-- **Edits in another order are the same when sorted**, if the alike ones keep theirs. -/
theorem arrange_eq_arrange {es fs : List Edit} (hperm : es.Perm fs)
    (halike : ∀ e : Edit, es.filter e.alike = fs.filter e.alike) : arrange es = arrange fs := by
  apply eq_of_sorted (arrange_sorted es) (arrange_sorted fs)
  · exact (arrange_perm es).trans (hperm.trans (arrange_perm fs).symm)
  · intro e
    have hclass : ∀ a b : Edit, e.alike a = true → e.alike b = true → a.notAfter b = true := by
      intro a b ha hb
      rw [alike, Bool.and_eq_true] at ha hb
      exact notAfter_trans ha.2 hb.1
    rw [filter_arrange hclass, filter_arrange hclass, halike e]

end Edit

namespace Patch

variable {p q : Patch}

/-! ## runs that go through -/

/-- the request names places to cut `t` at -/
def Request.Fits (t : Text) : Request → Prop
  | .insert n _ => t.isBoundary n = true
  | .append _ => True
  | .overwrite a b _ => a ≤ b ∧ t.isBoundary a = true ∧ t.isBoundary b = true

theorem Sound.make_ok_iff (hp : p.Sound) {r : Request} :
    p.make r = .ok q ↔ r.Fits p.text ∧
      (∀ f ∈ r.edits p.text, ∀ e ∈ p.edits, e.Apart f) ∧ q = p.extend (r.edits p.text) := by
  cases r with
  | insert n s =>
    show p.insert n s = .ok q ↔ _
    rw [insert_ok_iff]
    simp only [Request.edits, List.mem_singleton, forall_eq]
    exact Iff.rfl
  | append s =>
    show p.insert p.text.size s = .ok q ↔ _
    rw [insert_ok_iff]
    simp only [Request.edits, List.mem_singleton, forall_eq]
    exact and_congr_left' (iff_true_intro (Text.isBoundary_size p.text))
  | overwrite a b s => exact overwrite_ok_iff hp

/-- **A run goes through exactly when its requests fit the text and no two edits meet.** -/
theorem Sound.makeAll_ok_iff (hp : p.Sound) {rs : List Request} :
    p.makeAll rs = .ok q ↔ (∀ r ∈ rs, r.Fits p.text) ∧
      (p.edits ++ rs.flatMap (Request.edits p.text)).Pairwise Edit.Apart ∧
        q = p.extend (rs.flatMap (Request.edits p.text)) := by
  induction rs generalizing p with
  | nil =>
    have hnil : p.extend [] = p := by
      rw [Patch.extend, List.append_nil]
    simp only [List.flatMap_nil, List.append_nil, hnil, List.not_mem_nil, false_imp_iff,
      implies_true, true_and, hp.apart]
    exact ⟨fun h => (Except.ok.inj h).symm, fun h => congrArg Except.ok h.symm⟩
  | cons r rs ih =>
    have hstep : ∀ {p' : Patch}, p.make r = .ok p' → (p'.makeAll rs = .ok q ↔
        (∀ r ∈ rs, r.Fits p.text) ∧
          (p.edits ++ (r :: rs).flatMap (Request.edits p.text)).Pairwise Edit.Apart ∧
            q = p.extend ((r :: rs).flatMap (Request.edits p.text))) := by
      intro p' h
      have hp' := hp.make h
      obtain ⟨-, -, rfl⟩ := hp.make_ok_iff.mp h
      rw [ih hp'.1, extend_extend, List.flatMap_cons, ← List.append_assoc]
      exact Iff.rfl
    constructor
    · intro h
      obtain ⟨p', h1, h2⟩ : ∃ p', p.make r = .ok p' ∧ p'.makeAll rs = .ok q := by
        cases hr : p.make r with
        | error x =>
          have h' : (p.make r >>= fun p' => p'.makeAll rs) = .ok q := h
          rw [hr] at h'
          cases h'
        | ok p' => exact ⟨p', rfl, (makeAll_cons hr).symm.trans h⟩
      obtain ⟨h3, h4, h5⟩ := (hstep h1).mp h2
      exact ⟨List.forall_mem_cons.mpr ⟨(hp.make_ok_iff.mp h1).1, h3⟩, h4, h5⟩
    · rintro ⟨h1, h2, h3⟩
      obtain ⟨hfit, hrest⟩ := List.forall_mem_cons.mp h1
      have hapart : ∀ f ∈ r.edits p.text, ∀ e ∈ p.edits, e.Apart f := by
        intro f hf e he
        exact (List.pairwise_append.mp h2).2.2 e he f
          (List.mem_flatMap.mpr ⟨r, List.mem_cons_self, hf⟩)
      have hmake := hp.make_ok_iff.mpr ⟨hfit, hapart, rfl⟩
      rw [makeAll_cons hmake]
      exact (hstep hmake).mpr ⟨hrest, h2, h3⟩

/-! ## another order -/

theorem edits_cases (t : Text) (r : Request) : r.edits t = [] ∨ ∃ e, r.edits t = [e] := by
  cases r with
  | insert n s => exact Or.inr ⟨_, rfl⟩
  | append s => exact Or.inr ⟨_, rfl⟩
  | overwrite a b s =>
    show Edit.ofOverwrite t a b s = [] ∨ ∃ e, Edit.ofOverwrite t a b s = [e]
    unfold Edit.ofOverwrite
    split
    · exact Or.inl rfl
    · exact Or.inr ⟨_, rfl⟩
    · exact Or.inr ⟨_, rfl⟩

/-- the insertion of a request is the edit at its place -/
theorem filter_edits (t : Text) (n : Nat) (r : Request) :
    (r.edits t).filter (Edit.insertsAt n) = if r.place? t = some n then r.edits t else [] := by
  have hplace := place?_edits t r
  rcases edits_cases t r with h | ⟨e, h⟩
  · rw [h]
    split <;> rfl
  · rw [h] at hplace ⊢
    cases e with
    | insert k s =>
      have hk : r.place? t = some k := Option.toList_eq_singleton_iff.mp hplace.symm
      rw [hk]
      simp [Edit.insertsAt, List.filter_cons]
    | replace a b s =>
      have hnone : r.place? t = none := Option.toList_eq_nil_iff.mp hplace.symm
      rw [hnone]
      rfl

/-- the insertions at a place are those of the requests there -/
theorem filter_flatMap_edits (t : Text) (n : Nat) (rs : List Request) :
    (rs.flatMap (Request.edits t)).filter (Edit.insertsAt n) =
      (rs.filter fun r => r.place? t = some n).flatMap (Request.edits t) := by
  induction rs with
  | nil => rfl
  | cons r rs ih =>
    rw [List.flatMap_cons, List.filter_append, filter_edits, ih, List.filter_cons]
    simp only [decide_eq_true_eq]
    split
    · rw [List.flatMap_cons]
    · rfl

/-- two sound patches with the same edits replace the same at a place -/
theorem Sound.filter_replacesAt_perm (hp : p.Sound) (h : p.edits.Perm q.edits) (a : Nat) :
    p.edits.filter (Edit.replacesAt a) = q.edits.filter (Edit.replacesAt a) := by
  have hperm := h.filter (Edit.replacesAt a)
  cases hfind : p.edits.find? (Edit.replacesAt a) with
  | none =>
    have hnil : p.edits.filter (Edit.replacesAt a) = [] :=
      List.filter_eq_nil_iff.mpr fun e he => List.find?_eq_none.mp hfind e he
    rw [hnil] at hperm ⊢
    exact hperm.nil_eq
  | some e =>
    rw [hp.filter_replacesAt hfind] at hperm ⊢
    exact (List.perm_singleton.mp hperm.symm).symm

/-- **Requests in another order make the same chunks.**  If a run goes through, then so does every
other order of its requests in which those that insert at one and the same place stay as they are,
and what becomes of the text is the same: its chunks, the patched text and the source map. -/
theorem makeAll_perm {t : Text} {rs rs' : List Request} (h : (ofText t).makeAll rs = .ok p)
    (hperm : rs.Perm rs')
    (horder : ∀ n, (rs.filter fun r => r.place? t = some n) =
      rs'.filter fun r => r.place? t = some n) :
    ∃ q, (ofText t).makeAll rs' = .ok q ∧ q.chunks = p.chunks ∧ q.render = p.render ∧
      ∀ source, SourceMap.ofChunks source t q.chunks = SourceMap.ofChunks source t p.chunks := by
  obtain ⟨hsound, htext⟩ := sound_of_makeAll h
  obtain ⟨hfit, hapart, hp⟩ := (sound_ofText t).makeAll_ok_iff.mp h
  have hedits : (rs.flatMap (Request.edits t)).Perm (rs'.flatMap (Request.edits t)) :=
    hperm.flatMap_right _
  have hq : (ofText t).makeAll rs' = .ok ((ofText t).extend (rs'.flatMap (Request.edits t))) := by
    refine (sound_ofText t).makeAll_ok_iff.mpr ⟨?_, ?_, rfl⟩
    · intro r hr
      exact hfit r (hperm.mem_iff.mpr hr)
    · exact ((hedits.append_left _).pairwise_iff fun he => he.symm).mp hapart
  refine ⟨_, hq, ?_⟩
  have halike : ∀ e : Edit, p.edits.filter e.alike =
      (rs'.flatMap (Request.edits t)).filter e.alike := by
    subst hp
    intro e
    cases e with
    | insert n s =>
      rw [Edit.alike_insert, filter_flatMap_edits, ← horder, ← filter_flatMap_edits]
      rfl
    | replace a b s =>
      rw [Edit.alike_replace]
      exact hsound.filter_replacesAt_perm (q := (ofText t).extend (rs'.flatMap (Request.edits t)))
        hedits a
  have hchunks : ((ofText t).extend (rs'.flatMap (Request.edits t))).chunks = p.chunks := by
    have harrange := Edit.arrange_eq_arrange (hp ▸ hedits : p.edits.Perm _) halike
    show chunksFrom t 0 (Edit.arrange (rs'.flatMap (Request.edits t))) =
      chunksFrom p.text 0 (Edit.arrange p.edits)
    rw [harrange, htext]
  refine ⟨hchunks, ?_, ?_⟩
  · rw [render, render, hchunks]
  · intro source
    rw [hchunks]

/-- two insertions at one place, which keep their order, a replacement and an end -/
theorem makeAll_perm_bracketed :
    let rs : List Request := [.insert 4 "[".toList, .overwrite 0 3 "A".toList,
      .insert 4 "(".toList, .append ";".toList]
    let rs' : List Request := [.append ";".toList, .insert 4 "[".toList, .insert 4 "(".toList,
      .overwrite 0 3 "A".toList]
    ∃ p, (ofText "abc def".toList).makeAll rs = .ok p ∧ rs.Perm rs' ∧
      (∀ n, (rs.filter fun r => r.place? "abc def".toList = some n) =
        rs'.filter fun r => r.place? "abc def".toList = some n) ∧
      ∃ q, (ofText "abc def".toList).makeAll rs' = .ok q ∧ q.chunks = p.chunks ∧
        q.render = p.render ∧ ∀ source, SourceMap.ofChunks source "abc def".toList q.chunks =
          SourceMap.ofChunks source "abc def".toList p.chunks := by
  intro rs rs'
  have hperm : rs.Perm rs' := by decide
  have hplaces : ∀ {t : Text} {a b c d : Request}, a.place? t = some 4 → b.place? t = none →
      c.place? t = some 4 → d.place? t = some 7 → ∀ n,
        ([a, b, c, d].filter fun r => r.place? t = some n) =
          [d, a, c, b].filter fun r => r.place? t = some n := by
    intro t a b c d ha hb hc hd n
    by_cases hn : n = 7
    · subst hn
      simp [ha, hb, hc, hd]
    · have hn' : ¬ 7 = n := fun h => hn h.symm
      simp [List.filter_cons, ha, hb, hc, hd, hn']
  have horder : ∀ n, (rs.filter fun r => r.place? "abc def".toList = some n) =
      rs'.filter fun r => r.place? "abc def".toList = some n :=
    hplaces (by decide) (by decide) (by decide) (by decide)
  refine ⟨_, rfl, hperm, horder, ?_⟩
  exact makeAll_perm rfl hperm horder

end Patch

end StorySuite
