import StorySuite.Text.Basic

/-!
# The bytes of a text

A byte below 128 is a character of its own: characters beyond are written with larger bytes only.

* `Text.length_bytes`           there are as many bytes as the size says;
* `utf8EncodeChar_small`, `le_of_mem_utf8EncodeChar`   the bytes of one character;
* `Text.drop_bytes`             the bytes behind a piece of a text.
-/

namespace StorySuite

theorem utf8Size_small {c : Char} (h : c.toNat < 128) : c.utf8Size = 1 :=
  Char.utf8Size_eq_one_iff.mpr (UInt32.le_iff_toNat_le.mpr (Nat.le_of_lt_succ h))

theorem toNat_toUInt8 {c : Char} (h : c.toNat < 128) : c.toUInt8.toNat = c.toNat := by
  show c.val.toNat % 256 = c.val.toNat
  exact Nat.mod_eq_of_lt (Nat.lt_trans h (by decide))

theorem toUInt8_inj {c d : Char} (hc : c.toNat < 128) (hd : d.toNat < 128) :
    c.toUInt8 = d.toUInt8 ↔ c = d := by
  refine ⟨fun h => ?_, fun h => h ▸ rfl⟩
  have hnat := congrArg UInt8.toNat h
  rw [toNat_toUInt8 hc, toNat_toUInt8 hd] at hnat
  exact Char.toNat_inj.mp hnat

/-- a small character is its own byte -/
theorem utf8EncodeChar_small {c : Char} (h : c.toNat < 128) :
    String.utf8EncodeChar c = [c.toUInt8] :=
  String.utf8EncodeChar_eq_singleton (utf8Size_small h)

/-- the bytes of any other character are large -/
theorem le_of_mem_utf8EncodeChar {c : Char} (h : 128 ≤ c.toNat) {b : UInt8}
    (hb : b ∈ String.utf8EncodeChar c) : 128 ≤ b.toNat := by
  have hlarge : ∀ x y : Nat, 128 ≤ y → x + y < 256 → 128 ≤ (UInt8.ofNat (x + y)).toNat := by
    intro x y hy hxy
    rw [UInt8.toNat_ofNat', Nat.mod_eq_of_lt hxy]
    omega
  have hsmall : ¬ c.val.toNat ≤ 127 := Nat.not_le_of_lt h
  unfold String.utf8EncodeChar at hb
  simp only [if_neg hsmall] at hb
  split at hb
  · simp only [List.mem_cons, List.not_mem_nil, or_false] at hb
    rcases hb with rfl | rfl
    all_goals exact hlarge _ _ (by decide) (by omega)
  · split at hb
    · simp only [List.mem_cons, List.not_mem_nil, or_false] at hb
      rcases hb with rfl | rfl | rfl
      all_goals exact hlarge _ _ (by decide) (by omega)
    · simp only [List.mem_cons, List.not_mem_nil, or_false] at hb
      rcases hb with rfl | rfl | rfl | rfl
      all_goals exact hlarge _ _ (by decide) (by omega)

namespace Text

theorem bytes_cons (c : Char) (t : Text) : bytes (c :: t) = String.utf8EncodeChar c ++ bytes t :=
  List.flatMap_cons

theorem bytes_small {c : Char} (h : c.toNat < 128) (t : Text) :
    bytes (c :: t) = c.toUInt8 :: bytes t := by
  rw [bytes_cons, utf8EncodeChar_small h, List.singleton_append]

theorem length_bytes (t : Text) : (bytes t).length = size t := by
  induction t with
  | nil => rfl
  | cons c t ih => rw [bytes_cons, List.length_append, String.length_utf8EncodeChar, ih, size_cons]

theorem drop_bytes (s u : Text) : (bytes (s ++ u)).drop (size s) = bytes u := by
  have hbytes : bytes (s ++ u) = bytes s ++ bytes u := List.flatMap_append
  rw [hbytes, ← length_bytes, List.drop_left]

end Text

end StorySuite
