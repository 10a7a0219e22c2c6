import StorySuite.SourceMap.Vlq

/-!
# Quantities in words

The numbers of mappings are differences of 32-bit numbers, and those are written and read in words
of 64 bits.

`Vlq.encodeWord` writes a word, `Vlq.decodeWord?` reads one off the front of a text and stops where
a digit would be moved out of it.
-/

namespace StorySuite.Vlq

/-- What leads from `b` to `a`. -/
def difference (a b : UInt32) : Int64 := a.toUInt64.toInt64 - b.toUInt64.toInt64

/-- A word with its sign as the lowest bit. -/
def zigzagWord (n : Int64) : UInt64 :=
  (if n < 0 then (-n) <<< 1 ||| 1 else n <<< 1).toUInt64

/-- The word whose lowest bit is its sign. -/
def unzigzagWord (n : Int64) : Int64 := if n &&& 1 = 1 then -(n >>> 1) else n >>> 1

/-- The groups of a word without a sign. -/
def encodeBits (n : UInt64) : Text :=
  if h : n >>> 5 = 0 then [digit (n &&& 31).toNat]
  else digit (n &&& 31 ||| 32).toNat :: encodeBits (n >>> 5)
termination_by n.toNat
decreasing_by
  have h' : (n >>> 5).toNat ≠ 0 := fun h0 => h (UInt64.toNat_inj.mp h0)
  have h5 : (n >>> 5).toNat = n.toNat / 32 := by
    rw [UInt64.toNat_shiftRight, Nat.shiftRight_eq_div_pow]
    rfl
  omega

def encodeWord (n : Int64) : Text := encodeBits (zigzagWord n)

/-- The groups at the front of a text, put to `n` from bit `shift` on, and the rest of the text. -/
def decodeBits? (n : Int64) (shift : Nat) : Text → Option (Int64 × Text)
  | [] => none
  | c :: t =>
    match value? c with
    | none => none
    | some d =>
      if 64 ≤ shift then none
      else
        let n := n ||| (Int64.ofNat d &&& 31) <<< Int64.ofNat shift
        if Int64.ofNat d &&& 32 ≠ 0 then decodeBits? n (shift + 5) t else some (n, t)

/-- The word at the front of a text, and the rest of the text. -/
def decodeWord? (t : Text) : Option (Int64 × Text) :=
  (decodeBits? 0 0 t).map fun p => (unzigzagWord p.1, p.2)

end StorySuite.Vlq
