import Mathlib
import StorySuite.SourceMap.Word
import StorySuite.Proofs.SourceMap.Mappings

/-!
# Quantities in words, written and read

Nothing is lost where a difference of 32-bit numbers is shifted in a word of 64 bits: the words are
written as the numbers that they stand for, and what is read is the word that was written.

* `Vlq.encodeBits_eq`, `Vlq.decodeBits?_encodeNat`   the groups of a word;
* `Vlq.encodeWord_eq`, `Vlq.decodeWord?_encode`      **words of less than 62 bits with their sign**;
* `Mappings.encode_lossless`   **mappings are read back, and no two are written alike**.
-/

namespace StorySuite

namespace Vlq

/-! ## the bits of a word -/

theorem toNat_shift (n : UInt64) : (n >>> 5).toNat = n.toNat / 32 := by
  rw [UInt64.toNat_shiftRight, Nat.shiftRight_eq_div_pow]
  rfl

theorem toNat_group (n : UInt64) : (n &&& 31).toNat = n.toNat % 32 := by
  rw [UInt64.toNat_and]
  exact Nat.and_two_pow_sub_one_eq_mod n.toNat 5

theorem or_eq_add {n m i : Nat} (h : n < 2 ^ i) : n ||| m * 2 ^ i = n + m * 2 ^ i := by
  rw [Nat.or_comm, ← Nat.shiftLeft_eq, ← Nat.shiftLeft_add_eq_or_of_lt h, Nat.add_comm]

theorem toNat_marked (n : UInt64) : (n &&& 31 ||| 32).toNat = n.toNat % 32 + 32 := by
  rw [UInt64.toNat_or, toNat_group]
  exact or_eq_add (m := 1) (i := 5) (Nat.mod_lt _ (by decide))

theorem encodeBits_eq (n : UInt64) : encodeBits n = encodeNat n.toNat := by
  fun_induction encodeBits n with
  | case1 n h =>
    have h0 : n.toNat / 32 = 0 := by rw [← toNat_shift, h]; rfl
    rw [encodeNat, dif_pos h0, toNat_group]
  | case2 n h ih =>
    have h0 : n.toNat / 32 ≠ 0 := fun h0 => h (UInt64.toNat_inj.mp ((toNat_shift n).trans h0))
    rw [encodeNat, dif_neg h0, toNat_marked, ih, toNat_shift]

/-! ## signs -/

/-- what a word stands for, by its bits -/
theorem toInt_eq (n : Int64) : n.toInt =
    if 2 * n.toBitVec.toNat < 2 ^ 64 then (n.toBitVec.toNat : Int) else n.toBitVec.toNat - 2 ^ 64 :=
  BitVec.toInt_eq_toNat_cond n.toBitVec

theorem toNat_of_nonneg {n : Int64} (h : 0 ≤ n.toInt) : (n.toBitVec.toNat : Int) = n.toInt := by
  have hn := toInt_eq n
  split at hn
  · exact hn.symm
  · have hlt : n.toBitVec.toNat < 2 ^ 64 := n.toBitVec.isLt
    omega

theorem toNat_double {n : Int64} (h : 0 ≤ n.toInt) (hn : n.toInt < 2 ^ 62) :
    ((n <<< 1).toBitVec.toNat : Int) = 2 * n.toInt := by
  have hb := toNat_of_nonneg h
  have hs : (n <<< 1).toBitVec.toNat = n.toBitVec.toNat * 2 % 2 ^ 64 := by
    rw [Int64.toBitVec_shiftLeft, show (1 : Int64).toBitVec.smod 64 = 1#64 from by decide,
      BitVec.shiftLeft_eq', BitVec.toNat_shiftLeft, Nat.shiftLeft_eq]
    rfl
  omega

theorem toInt_neg {n : Int64} (h : n.toInt.natAbs < 2 ^ 62) : (-n).toInt = -n.toInt := by
  rw [Int64.toInt_neg]
  exact Int.bmod_eq_of_le (by omega) (by omega)

theorem toNat_zigzagWord {n : Int64} (h : n.toInt.natAbs < 2 ^ 62) :
    (zigzagWord n).toNat = zigzag n.toInt := by
  have hlt : n < 0 ↔ n.toInt < 0 := Int64.lt_iff_toInt_lt
  unfold zigzagWord zigzag
  by_cases hn : n.toInt < 0
  · rw [if_pos (hlt.mpr hn), if_pos hn]
    have hd := toNat_double (n := -n) (by rw [toInt_neg h]; omega) (by rw [toInt_neg h]; omega)
    rw [toInt_neg h] at hd
    have hor := or_eq_add (n := 1) (m := n.toInt.natAbs) (i := 1) (by decide)
    show ((-n) <<< 1 ||| 1).toBitVec.toNat = _
    rw [Int64.toBitVec_or, BitVec.toNat_or, show ((-n) <<< 1).toBitVec.toNat = n.toInt.natAbs * 2 ^ 1
      from by omega, Nat.or_comm]
    show 1 ||| n.toInt.natAbs * 2 ^ 1 = _
    omega
  · rw [if_neg (mt hlt.mp hn), if_neg hn]
    have hd := toNat_double (n := n) (by omega) (by omega)
    show (n <<< 1).toBitVec.toNat = _
    omega

theorem encodeWord_eq {n : Int64} (h : n.toInt.natAbs < 2 ^ 62) : encodeWord n = encode n.toInt := by
  rw [encodeWord, encodeBits_eq, toNat_zigzagWord h, encode]

theorem toInt_unzigzagWord {n : Int64} (h : 0 ≤ n.toInt) :
    (unzigzagWord n).toInt = unzigzag n.toInt.toNat := by
  have hb := toNat_of_nonneg h
  have hlt : n.toBitVec.toNat < 2 ^ 64 := n.toBitVec.isLt
  have hn := toInt_eq n
  have hmsb : n.toBitVec.msb = false := BitVec.msb_eq_false_iff_two_mul_lt.mpr (by omega)
  have hodd : n &&& 1 = 1 ↔ n.toInt.toNat % 2 = 1 := by
    have hand : (n &&& 1).toBitVec.toNat = n.toBitVec.toNat % 2 := by
      rw [Int64.toBitVec_and, BitVec.toNat_and]
      exact Nat.and_two_pow_sub_one_eq_mod _ 1
    rw [← Int64.toBitVec_inj, ← BitVec.toNat_inj, hand, show n.toInt.toNat = n.toBitVec.toNat
      from by omega]
    rfl
  have hhalf : (n >>> 1).toBitVec.toNat = n.toBitVec.toNat / 2 := by
    rw [Int64.toBitVec_shiftRight, show (1 : Int64).toBitVec.smod 64 = 1#64 from by decide,
      BitVec.sshiftRight_eq', BitVec.sshiftRight_eq_of_msb_false hmsb, BitVec.toNat_ushiftRight,
      Nat.shiftRight_eq_div_pow]
    rfl
  have hint : (n >>> 1).toInt = (n.toInt.toNat / 2 : Nat) := by
    have h' := toInt_eq (n >>> 1)
    omega
  unfold unzigzagWord unzigzag
  by_cases hone : n.toInt.toNat % 2 = 1
  · rw [if_pos (hodd.mpr hone), if_pos hone, toInt_neg (by omega), hint]
  · rw [if_neg (mt hodd.mp hone), if_neg hone, hint]

/-! ## reading -/

theorem toNat_digit {d : Nat} (hd : d < 64) : (Int64.ofNat d).toBitVec.toNat = d := by
  rw [Int64.toBitVec_ofNat', BitVec.toNat_ofNat, Nat.mod_eq_of_lt (by omega)]

/-- whether another group follows -/
theorem and_mark {d : Nat} (hd : d < 64) : Int64.ofNat d &&& 32 ≠ 0 ↔ ¬ d < 32 := by
  have h : ∀ k : Fin 64, (Int64.ofNat k.val &&& 32 ≠ 0 ↔ ¬ k.val < 32) := by decide +kernel
  exact h ⟨d, hd⟩

/-- a group that is put above those that are there -/
theorem toNat_put {n : Int64} {d shift : Nat} (hn : n.toBitVec.toNat < 2 ^ shift) (hd : d < 64)
    (hs : d % 32 * 2 ^ shift < 2 ^ 64) (hshift : shift < 64) :
    (n ||| (Int64.ofNat d &&& 31) <<< Int64.ofNat shift).toBitVec.toNat =
      n.toBitVec.toNat + d % 32 * 2 ^ shift := by
  have hgroup : (Int64.ofNat d &&& 31).toBitVec.toNat = d % 32 := by
    rw [Int64.toBitVec_and, BitVec.toNat_and, toNat_digit hd]
    exact Nat.and_two_pow_sub_one_eq_mod d 5
  have hmod : ∀ k : Fin 64, ((Int64.ofNat k.val).toBitVec.smod 64).toNat = k.val := by
    decide +kernel
  have hmoved : ((Int64.ofNat d &&& 31) <<< Int64.ofNat shift).toBitVec.toNat =
      d % 32 * 2 ^ shift := by
    rw [Int64.toBitVec_shiftLeft, BitVec.shiftLeft_eq', hmod ⟨shift, hshift⟩, BitVec.toNat_shiftLeft,
      hgroup, Nat.shiftLeft_eq, Nat.mod_eq_of_lt hs]
  rw [Int64.toBitVec_or, BitVec.toNat_or, hmoved]
  exact or_eq_add hn

/-- **The groups of a number are put together again**, as long as there is room for it above the
`shift` bits that are there. -/
theorem decodeBits?_encodeNat (shift : Nat) {n : Int64} {k : Nat} (hn : n.toBitVec.toNat < 2 ^ shift)
    (hk : k * 2 ^ shift < 2 ^ 64) (hshift : shift < 64) (t : Text) :
    ∃ m, decodeBits? n shift (encodeNat k ++ t) = some (m, t) ∧
      m.toBitVec.toNat = n.toBitVec.toNat + k * 2 ^ shift := by
  induction k using Nat.strongRecOn generalizing n shift with
  | ind k ih =>
    rw [encodeNat]
    by_cases h : k / 32 = 0
    · have hlt : k < 32 := by omega
      have hput := toNat_put hn (d := k % 32) (by omega)
        (by rw [Nat.mod_mod, Nat.mod_eq_of_lt hlt]; exact hk) hshift
      refine ⟨_, ?_, hput.trans (by rw [Nat.mod_mod, Nat.mod_eq_of_lt hlt])⟩
      rw [dif_pos h, List.singleton_append, decodeBits?, value?_digit (by omega)]
      simp only
      rw [if_neg (by omega), if_neg (mt (and_mark (by omega)).mp (by omega))]
    · -- the groups above this one lie five bits higher
      have hsplit : k * 2 ^ shift = k % 32 * 2 ^ shift + k / 32 * 2 ^ (shift + 5) := by
        rw [Nat.pow_add, Nat.mul_comm (2 ^ shift), ← Nat.mul_assoc, ← Nat.add_mul]
        congr 1
        omega
      have hmod : (k % 32 + 32) % 32 = k % 32 := by omega
      have hput := toNat_put hn (d := k % 32 + 32) (by omega) (by rw [hmod]; omega) hshift
      rw [hmod] at hput
      have hroom : n.toBitVec.toNat + k % 32 * 2 ^ shift < 2 ^ (shift + 5) := by
        have : k % 32 * 2 ^ shift ≤ 31 * 2 ^ shift := Nat.mul_le_mul_right _ (by omega)
        rw [Nat.pow_add]
        omega
      have hshift' : shift + 5 < 64 := by
        refine (Nat.pow_lt_pow_iff_right (a := 2) (by decide)).mp ?_
        have : 1 * 2 ^ (shift + 5) ≤ k / 32 * 2 ^ (shift + 5) := Nat.mul_le_mul_right _ (by omega)
        omega
      obtain ⟨m, hm, hbits⟩ := ih (k / 32) (by omega) (shift + 5)
        (n := n ||| (Int64.ofNat (k % 32 + 32) &&& 31) <<< Int64.ofNat shift) (by rw [hput]; exact hroom)
        (by omega) hshift'
      refine ⟨m, ?_, by rw [hbits, hput, hsplit, Nat.add_assoc]⟩
      rw [dif_neg h, List.cons_append, decodeBits?, value?_digit (by omega)]
      simp only
      rw [if_neg (by omega), if_pos ((and_mark (by omega)).mpr (by omega))]
      exact hm

/-- **A word is read back in front of any text.** -/
theorem decodeWord?_encode {n : Int64} (h : n.toInt.natAbs < 2 ^ 62) (t : Text) :
    decodeWord? (encode n.toInt ++ t) = some (n, t) := by
  have hz : zigzag n.toInt < 2 ^ 63 := by
    unfold zigzag
    split <;> omega
  obtain ⟨m, hm, hbits⟩ := decodeBits?_encodeNat 0 (n := 0) (k := zigzag n.toInt)
    (by decide) (by omega) (by decide) t
  have hbits' : m.toBitVec.toNat = zigzag n.toInt := by
    rw [hbits]
    show 0 + _ = _
    omega
  have hint : m.toInt = zigzag n.toInt := by
    have h' := toInt_eq m
    omega
  rw [decodeWord?, encode, hm, Option.map_some]
  congr 2
  show unzigzagWord m = n
  refine Int64.toInt_inj.mp ?_
  rw [toInt_unzigzagWord (by omega), hint, Int.toNat_natCast, unzigzag_zigzag]

theorem toInt_difference (a b : UInt32) :
    (difference a b).toInt = (a.toNat : Int) - b.toNat := by
  have hwide : ∀ c : UInt32, c.toUInt64.toInt64.toInt = (c.toNat : Int) := fun c => by
    have hc : c.toUInt64.toInt64.toBitVec.toNat = c.toNat := UInt32.toNat_toUInt64 c
    have hlt : c.toNat < 2 ^ 32 := c.toBitVec.isLt
    have h' := toInt_eq c.toUInt64.toInt64
    omega
  have ha : a.toNat < 2 ^ 32 := a.toBitVec.isLt
  have hb : b.toNat < 2 ^ 32 := b.toBitVec.isLt
  rw [difference, Int64.toInt_sub, hwide, hwide]
  exact Int.bmod_eq_of_le (by omega) (by omega)

end Vlq

/-- **Mappings lose nothing when they are written**: they are read back, no others are written
alike, and the differences that they are made of fit into the words in which they are written and
read. -/
theorem Mappings.encode_lossless {m : Mappings} (hm : m ≠ []) :
    decode? m.encode = some m ∧
      (∀ m' : Mappings, m' ≠ [] → m'.encode = m.encode → m' = m) ∧
      ∀ (a b : UInt32) (t : Text),
        (Vlq.difference a b).toInt = (a.toNat : Int) - b.toNat ∧
          Vlq.encodeWord (Vlq.difference a b) = Vlq.encode ((a.toNat : Int) - b.toNat) ∧
          Vlq.decodeWord? (Vlq.encodeWord (Vlq.difference a b) ++ t) =
            some (Vlq.difference a b, t) := by
  refine ⟨decode?_encode hm, fun m' hm' he => ?_, fun a b t => ?_⟩
  · have h := decode?_encode hm'
    rw [he, decode?_encode hm] at h
    exact (Option.some.inj h).symm
  · have hd := Vlq.toInt_difference a b
    have ha : a.toNat < 2 ^ 32 := a.toBitVec.isLt
    have hb : b.toNat < 2 ^ 32 := b.toBitVec.isLt
    have hw := Vlq.encodeWord_eq (n := Vlq.difference a b) (by omega)
    exact ⟨hd, by rw [hw, hd], by rw [hw, Vlq.decodeWord?_encode (by omega)]⟩

/-- lines without segments, columns that go back and the largest of all numbers -/
def jumpingMappings : Mappings := [[], [⟨5, 4294967295, 7⟩, ⟨2, 0, 4294967295⟩], [], []]

theorem Mappings.encode_lossless_jumping : jumpingMappings ≠ [] ∧
    decode? jumpingMappings.encode = some jumpingMappings ∧
    (∀ m' : Mappings, m' ≠ [] → m'.encode = jumpingMappings.encode → m' = jumpingMappings) ∧
    ∀ (a b : UInt32) (t : Text),
      (Vlq.difference a b).toInt = (a.toNat : Int) - b.toNat ∧
        Vlq.encodeWord (Vlq.difference a b) = Vlq.encode ((a.toNat : Int) - b.toNat) ∧
        Vlq.decodeWord? (Vlq.encodeWord (Vlq.difference a b) ++ t) =
          some (Vlq.difference a b, t) :=
  ⟨List.cons_ne_nil _ _, encode_lossless (List.cons_ne_nil _ _)⟩

end StorySuite
