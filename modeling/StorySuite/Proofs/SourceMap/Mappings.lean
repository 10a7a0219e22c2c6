import StorySuite.SourceMap.Mappings
import StorySuite.Proofs.Text.Fields

/-!
# Mappings, written and read

Reading gives back what was written, at every level: digits, numbers, segments, lines and whole
mappings.  The marks between segments and lines are no digits, so the fields of a text are the
texts that were joined.

* `Vlq.decode?_encode`      a number in front of any text;
* `Segment.decode?_encode`  a segment behind the one before it;
* `decode?_encode`          **mappings with one line or more**.
-/

namespace StorySuite

namespace Vlq

/-! ## numbers -/

theorem value?_digit {n : Nat} (hn : n < 64) : value? (digit n) = some n := by
  have h : ∀ k : Fin 64, value? (digit k) = some k.val := by decide +kernel
  exact h ⟨n, hn⟩

theorem digit_mem (n : Nat) : digit n ∈ alphabet := by
  rw [digit, List.getD_eq_getElem?_getD]
  cases h : alphabet[n]? with
  | none => decide
  | some c => exact List.mem_of_getElem? h

theorem unzigzag_zigzag (n : Int) : unzigzag (zigzag n) = n := by
  unfold zigzag unzigzag
  by_cases h : n < 0
  · rw [if_pos h, if_pos (by omega)]
    omega
  · rw [if_neg h, if_neg (by omega)]
    omega

/-- reading takes one digit off and goes on while its sixth bit is set -/
theorem decodeNat?_digit {n : Nat} (hn : n < 64) (t : Text) :
    decodeNat? (digit n :: t) =
      if n < 32 then some (n, t) else (decodeNat? t).map fun p => (n - 32 + 32 * p.1, p.2) := by
  rw [decodeNat?, value?_digit hn]

theorem decodeNat?_encodeNat (n : Nat) (t : Text) :
    decodeNat? (encodeNat n ++ t) = some (n, t) := by
  induction n using Nat.strongRecOn with
  | ind n ih =>
    rw [encodeNat]
    by_cases h : n / 32 = 0
    · have hlt : n % 32 < 32 := Nat.mod_lt n (by decide)
      rw [dif_pos h, List.singleton_append, decodeNat?_digit (by omega), if_pos hlt]
      congr 2
      omega
    · have hge : ¬ n % 32 + 32 < 32 := by omega
      rw [dif_neg h, List.cons_append, decodeNat?_digit (by omega), if_neg hge,
        ih (n / 32) (by omega)]
      show some (n % 32 + 32 - 32 + 32 * (n / 32), t) = some (n, t)
      congr 2
      omega

/-- **A number is read back in front of any text.** -/
theorem decode?_encode (n : Int) (t : Text) : decode? (encode n ++ t) = some (n, t) := by
  rw [decode?, encode, decodeNat?_encodeNat, Option.map_some, unzigzag_zigzag]

theorem encodeNat_subset (n : Nat) : ∀ c ∈ encodeNat n, c ∈ alphabet := by
  induction n using Nat.strongRecOn with
  | ind n ih =>
    rw [encodeNat]
    by_cases h : n / 32 = 0
    · rw [dif_pos h]
      intro c hc
      rw [List.mem_singleton.mp hc]
      exact digit_mem _
    · rw [dif_neg h]
      intro c hc
      rcases List.mem_cons.mp hc with rfl | hc
      · exact digit_mem _
      · exact ih (n / 32) (by omega) c hc

theorem encode_subset (n : Int) : ∀ c ∈ encode n, c ∈ alphabet := encodeNat_subset _

theorem encode_ne_nil (n : Int) : encode n ≠ [] := by
  rw [encode, encodeNat]
  split
  · exact List.cons_ne_nil _ _
  · exact List.cons_ne_nil _ _

end Vlq

/-! ## segments -/

namespace Segment

theorem decode?_encode (b s : Segment) : decode? b (encode b s) = some s := by
  have hread : decode? b (encode b s) =
      if ([] : Text).isEmpty && (0 : Int) = 0 &&
          0 ≤ (b.column : Int) + ((s.column : Int) - b.column) &&
          0 ≤ (b.sourceLine : Int) + ((s.sourceLine : Int) - b.sourceLine) &&
          0 ≤ (b.sourceColumn : Int) + ((s.sourceColumn : Int) - b.sourceColumn) then
        some ⟨((b.column : Int) + ((s.column : Int) - b.column)).toNat,
          ((b.sourceLine : Int) + ((s.sourceLine : Int) - b.sourceLine)).toNat,
          ((b.sourceColumn : Int) + ((s.sourceColumn : Int) - b.sourceColumn)).toNat⟩
      else none := by
    unfold decode? encode
    rw [List.append_assoc, List.append_assoc, Vlq.decode?_encode]
    show (Vlq.decode? (Vlq.encode 0 ++ _) >>= _) = _
    rw [Vlq.decode?_encode]
    show (Vlq.decode? (Vlq.encode _ ++ Vlq.encode _) >>= _) = _
    rw [Vlq.decode?_encode]
    show (Vlq.decode? (Vlq.encode ((s.sourceColumn : Int) - b.sourceColumn)) >>= _) = _
    have h := Vlq.decode?_encode ((s.sourceColumn : Int) - b.sourceColumn) []
    rw [List.append_nil] at h
    rw [h]
    rfl
  have h : ∀ m n : Nat, (m : Int) + ((n : Int) - m) = n := fun m n => by omega
  rw [hread, h, h, h]
  simp

theorem encode_ne_nil (b s : Segment) : encode b s ≠ [] := by
  intro h
  have h' := List.append_eq_nil_iff.mp h
  exact Vlq.encode_ne_nil _ h'.2

theorem encode_subset (b s : Segment) : ∀ c ∈ encode b s, c ∈ Vlq.alphabet := by
  intro c hc
  unfold encode at hc
  simp only [List.mem_append] at hc
  rcases hc with ((hc | hc) | hc) | hc <;> exact Vlq.encode_subset _ c hc

theorem decodeAll?_encodeAll (b : Segment) (ss : List Segment) :
    decodeAll? b (encodeAll b ss) = some ss := by
  induction ss generalizing b with
  | nil => rfl
  | cons s ss ih =>
    rw [encodeAll, decodeAll?, decode?_encode]
    show (decodeAll? s (encodeAll s ss) >>= _) = _
    rw [ih]
    rfl

theorem encodeAll_subset (b : Segment) (ss : List Segment) :
    ∀ t ∈ encodeAll b ss, t ≠ [] ∧ ∀ c ∈ t, c ∈ Vlq.alphabet := by
  induction ss generalizing b with
  | nil => exact fun t ht => absurd ht List.not_mem_nil
  | cons s ss ih =>
    intro t ht
    rcases List.mem_cons.mp ht with rfl | ht
    · exact ⟨encode_ne_nil b s, encode_subset b s⟩
    · exact ih s t ht

end Segment

/-! ## lines -/

namespace Mappings

/-- the segments of a line, read off its text -/
theorem parts_line (b : Segment) (ss : List Segment) :
    (if (Text.join [','] (Segment.encodeAll b ss)).isEmpty then []
      else Text.fields ',' (Text.join [','] (Segment.encodeAll b ss))) = Segment.encodeAll b ss := by
  have hsub := Segment.encodeAll_subset b ss
  cases hall : Segment.encodeAll b ss with
  | nil => rfl
  | cons f fs =>
    rw [hall] at hsub
    have hcomma : ∀ g ∈ f :: fs, ',' ∉ g := fun g hg hc => absurd ((hsub g hg).2 _ hc) (by decide)
    have hne : (Text.join [','] (f :: fs)).isEmpty = false := by
      obtain ⟨c, u, hf⟩ := List.exists_cons_of_ne_nil (hsub f List.mem_cons_self).1
      cases fs with
      | nil => rw [hf]; rfl
      | cons g gs => rw [hf]; rfl
    rw [hne, Text.fields_join (List.cons_ne_nil _ _) hcomma]
    rfl

theorem decodeLines?_encodeLines (b : Segment) (m : Mappings) :
    decodeLines? b (encodeLines b m) = some m := by
  induction m generalizing b with
  | nil => rfl
  | cons ss lines ih =>
    rw [encodeLines, decodeLines?]
    show (Segment.decodeAll? b.lineStart (if _ then [] else _) >>= _) = _
    rw [parts_line, Segment.decodeAll?_encodeAll]
    show (decodeLines? (Segment.lastOf b ss) (encodeLines (Segment.lastOf b ss) lines) >>= _) = _
    rw [ih]
    rfl

theorem encodeLines_not_mem (b : Segment) (m : Mappings) : ∀ t ∈ encodeLines b m, ';' ∉ t := by
  induction m generalizing b with
  | nil => exact fun t ht => absurd ht List.not_mem_nil
  | cons ss lines ih =>
    intro t ht
    rcases List.mem_cons.mp ht with rfl | ht
    · intro hc
      rcases Text.mem_join hc with hc | ⟨f, hf, hc⟩
      · exact absurd hc (by decide)
      · exact absurd ((Segment.encodeAll_subset _ ss f hf).2 _ hc) (by decide)
    · exact ih _ t ht

/-- **Mappings are read back as they were written.** -/
theorem decode?_encode {m : Mappings} (hm : m ≠ []) : decode? m.encode = some m := by
  have hne : encodeLines ⟨0, 0, 0⟩ m ≠ [] := by
    cases m with
    | nil => exact absurd rfl hm
    | cons ss lines => exact List.cons_ne_nil _ _
  rw [decode?, encode, Text.fields_join hne (encodeLines_not_mem _ m), decodeLines?_encodeLines]

end Mappings

end StorySuite
