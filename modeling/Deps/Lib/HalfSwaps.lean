import Deps.Lib.Bytes

/-!
# Byte swaps by halves

The bytes of a word are reversed by reversing those of its halves and letting the halves
change places.  To be put together the halves are widened to words, with zeros or with
their signs.  In the second case the sign of the lower half is or-ed into the upper one,
so that the bytes are reversed only where no sign is set or it meets set bits:
`OnesBelow` says where, and `Swaps.double` carries this from halves to words.
-/

namespace Deps
namespace HalfSwaps

variable {w : Nat}

def low (x : BitVec (w + w)) : BitVec w := x.setWidth w

def high (x : BitVec (w + w)) : BitVec w := (x >>> w).setWidth w

/-- The halves change places, each changed by `half` and widened with zeros. -/
def swap (half : BitVec w → BitVec w) (x : BitVec (w + w)) : BitVec (w + w) :=
  (half (low x)).setWidth (w + w) <<< w ||| (half (high x)).setWidth (w + w)

/-- The same, widened with the sign. -/
def signedSwap (half : BitVec w → BitVec w) (x : BitVec (w + w)) : BitVec (w + w) :=
  (half (low x)).signExtend (w + w) <<< w ||| (half (high x)).signExtend (w + w)

/-- Where the bit `i` of a word of `w` bits is in the reversed word. -/
def mirror (w i : Nat) : Nat := w - 8 - 8 * (i / 8) + i % 8

/-- Below a byte whose top bit is set, all bits are set. -/
def OnesBelow (x : BitVec w) : Prop :=
  ∀ i < w / 8, x.getLsbD (8 * i + 7) = true → ∀ j < 8 * i, x.getLsbD j = true

/-- Above a byte whose top bit is set, all bits are set. -/
def OnesAbove (x : BitVec w) : Prop :=
  ∀ i < w / 8, x.getLsbD (8 * i + 7) = true → ∀ j < w, 8 * i + 8 ≤ j → x.getLsbD j = true

instance (x : BitVec w) : Decidable (OnesBelow x) :=
  inferInstanceAs (Decidable (∀ i < w / 8, x.getLsbD (8 * i + 7) = true →
    ∀ j < 8 * i, x.getLsbD j = true))

instance (x : BitVec w) : Decidable (OnesAbove x) :=
  inferInstanceAs (Decidable (∀ i < w / 8, x.getLsbD (8 * i + 7) = true →
    ∀ j < w, 8 * i + 8 ≤ j → x.getLsbD j = true))

/-! ## Bits -/

theorem getLsbD_low (x : BitVec (w + w)) {i : Nat} (hi : i < w) :
    (low x).getLsbD i = x.getLsbD i := by
  simp [low, hi]

theorem getLsbD_high (x : BitVec (w + w)) {i : Nat} (hi : i < w) :
    (high x).getLsbD i = x.getLsbD (w + i) := by
  simp [high, hi]

theorem getLsbD_swap (half : BitVec w → BitVec w) (x : BitVec (w + w)) {i : Nat}
    (hi : i < w + w) :
    (swap half x).getLsbD i =
      if i < w then (half (high x)).getLsbD i else (half (low x)).getLsbD (i - w) := by
  have hsub : i - w < w + w := by omega
  simp only [swap, BitVec.getLsbD_or, BitVec.getLsbD_shiftLeft, BitVec.getLsbD_setWidth, hi, hsub]
  by_cases hlow : i < w
  · simp [hlow]
  · simp [hlow, BitVec.getLsbD_of_ge _ i (Nat.le_of_not_lt hlow)]

theorem getLsbD_signedSwap (half : BitVec w → BitVec w) (x : BitVec (w + w)) {i : Nat}
    (hi : i < w + w) :
    (signedSwap half x).getLsbD i =
      if i < w then (half (high x)).getLsbD i
      else ((half (low x)).getLsbD (i - w) || (half (high x)).msb) := by
  have hsub : i - w < w + w := by omega
  have hin : i - w < w := by omega
  simp only [signedSwap, BitVec.getLsbD_or, BitVec.getLsbD_shiftLeft, BitVec.getLsbD_signExtend,
    hi, hsub]
  by_cases hlow : i < w
  · simp [hlow]
  · simp [hlow, hin]

theorem eq_allOnes_iff {x : BitVec w} :
    x = BitVec.allOnes w ↔ ∀ i < w, x.getLsbD i = true := by
  rw [BitVec.eq_of_getLsbD_eq_iff]
  refine forall₂_congr fun i hi => ?_
  rw [BitVec.getLsbD_allOnes, decide_eq_true hi]

theorem low_allOnes : low (BitVec.allOnes (w + w)) = BitVec.allOnes w := by
  rw [eq_allOnes_iff]
  intro i hi
  rw [getLsbD_low _ hi, BitVec.getLsbD_allOnes, decide_eq_true (by omega)]

theorem high_allOnes : high (BitVec.allOnes (w + w)) = BitVec.allOnes w := by
  rw [eq_allOnes_iff]
  intro i hi
  rw [getLsbD_high _ hi, BitVec.getLsbD_allOnes, decide_eq_true (by omega)]

theorem high_msb (x : BitVec (w + w)) : (high x).msb = x.msb := by
  rw [BitVec.msb_eq_getLsbD_last, BitVec.msb_eq_getLsbD_last]
  by_cases hpos : 0 < w
  · rw [getLsbD_high x (by omega), show w + (w - 1) = w + w - 1 by omega]
  · rw [BitVec.getLsbD_of_ge _ _ (by omega), BitVec.getLsbD_of_ge _ _ (by omega)]

/-- The upper half is below the sign bits after an arithmetic shift. -/
theorem setWidth_sshiftRight (x : BitVec (w + w)) : (x.sshiftRight w).setWidth w = high x := by
  apply BitVec.eq_of_getLsbD_eq
  intro i hi
  have hin : ¬ w + w ≤ i := by omega
  have hlow : w + i < w + w := by omega
  rw [getLsbD_high x hi, BitVec.getLsbD_setWidth, BitVec.getLsbD_sshiftRight]
  simp [hi, hin]

theorem swap_id (x : BitVec (w + w)) : swap id x = x <<< w ||| x >>> w := by
  apply BitVec.eq_of_getLsbD_eq
  intro i hi
  rw [getLsbD_swap id x hi, BitVec.getLsbD_or, BitVec.getLsbD_shiftLeft,
    BitVec.getLsbD_ushiftRight]
  by_cases hlow : i < w
  · simp only [id, getLsbD_high x hlow, hi, hlow, if_true, decide_true, Bool.not_true,
      Bool.and_false, Bool.false_and, Bool.false_or]
  · rw [if_neg hlow, id, getLsbD_low x (by omega), BitVec.getLsbD_of_ge _ (w + i) (by omega)]
    simp only [hi, hlow, decide_true, decide_false, Bool.not_false, Bool.true_and, Bool.or_false]

theorem signedSwap_id (x : BitVec (w + w)) :
    signedSwap id x = x <<< w ||| x.sshiftRight w := by
  apply BitVec.eq_of_getLsbD_eq
  intro i hi
  have hin : ¬ w + w ≤ i := Nat.not_le_of_lt hi
  rw [getLsbD_signedSwap id x hi, BitVec.getLsbD_or, BitVec.getLsbD_shiftLeft,
    BitVec.getLsbD_sshiftRight]
  by_cases hlow : i < w
  · have hsum : w + i < w + w := by omega
    simp only [id, getLsbD_high x hlow, hi, hin, hlow, hsum, if_true, decide_true, decide_false,
      Bool.not_true, Bool.not_false, Bool.and_false, Bool.false_and, Bool.true_and,
      Bool.false_or]
  · have hsum : ¬ w + i < w + w := by omega
    simp only [id, getLsbD_low x (show i - w < w by omega), high_msb, hi, hin, hlow, hsum,
      if_false, decide_true, decide_false, Bool.not_false, Bool.true_and]

/-- In a word whose upper half is cut off, an extension has nothing to extend. -/
theorem signExtend_low (x : BitVec (w + w)) : x.signExtend w = low x :=
  BitVec.signExtend_eq_setWidth_of_le x (Nat.le_add_left w w)

theorem signExtend_high (x : BitVec (w + w)) : (x.sshiftRight w).signExtend w = high x := by
  rw [signExtend_low, low, setWidth_sshiftRight]

/-! ## Numbers -/

theorem swap_eq_append (half : BitVec w → BitVec w) (x : BitVec (w + w)) :
    swap half x = half (low x) ++ half (high x) := by
  apply BitVec.eq_of_getLsbD_eq
  intro i hi
  rw [getLsbD_swap half x hi, BitVec.getLsbD_append]

theorem toNat_low (x : BitVec (w + w)) : (low x).toNat = x.toNat % 2 ^ w :=
  BitVec.toNat_setWidth w x

theorem toNat_high (x : BitVec (w + w)) : (high x).toNat = x.toNat / 2 ^ w := by
  have hlt : x.toNat / 2 ^ w < 2 ^ w := by
    apply Nat.div_lt_of_lt_mul
    rw [← Nat.pow_add]
    exact x.isLt
  rw [high, BitVec.toNat_setWidth, BitVec.toNat_ushiftRight, Nat.shiftRight_eq_div_pow,
    Nat.mod_eq_of_lt hlt]

/-- The bytes of a word are reversed as a number, when those of its halves are. -/
theorem toNat_swap {k : Nat} (hw : 2 ^ w = 256 ^ k) (half : BitVec w → BitVec w)
    (hhalf : ∀ y, (half y).toNat = Bytes.swap k y.toNat) (x : BitVec (w + w)) :
    (swap half x).toNat = Bytes.swap (k + k) x.toNat := by
  have hlt : (half (high x)).toNat < 2 ^ w := (half (high x)).isLt
  rw [swap_eq_append, BitVec.toNat_append, ← Nat.shiftLeft_add_eq_or_of_lt hlt,
    Nat.shiftLeft_eq, hhalf, hhalf, toNat_low, toNat_high, Bytes.swap_add_self, hw]
  ring

/-! ## Reversed bytes -/

theorem mirror_lt {i : Nat} (hw : 8 ∣ w) (hi : i < w) : mirror w i < w := by
  unfold mirror
  omega

theorem mirror_mirror {i : Nat} (hw : 8 ∣ w) (hi : i < w) : mirror w (mirror w i) = i := by
  unfold mirror
  omega

/-- `reverse` reverses the bytes. -/
def Reverses (reverse : BitVec w → BitVec w) : Prop :=
  ∀ x i, i < w → (reverse x).getLsbD i = x.getLsbD (mirror w i)

namespace Reverses

variable {reverse : BitVec w → BitVec w}

theorem reverse_reverse (h : Reverses reverse) (hw : 8 ∣ w) (x : BitVec w) :
    reverse (reverse x) = x := by
  apply BitVec.eq_of_getLsbD_eq
  intro i hi
  rw [h _ i hi, h _ _ (mirror_lt hw hi), mirror_mirror hw hi]

theorem eq_allOnes_iff (h : Reverses reverse) (hw : 8 ∣ w) (x : BitVec w) :
    reverse x = BitVec.allOnes w ↔ x = BitVec.allOnes w := by
  have hones : reverse (BitVec.allOnes w) = BitVec.allOnes w := by
    apply BitVec.eq_of_getLsbD_eq
    intro i hi
    rw [h _ i hi, BitVec.getLsbD_allOnes, BitVec.getLsbD_allOnes, decide_eq_true hi,
      decide_eq_true (mirror_lt hw hi)]
  constructor
  · intro hx
    rw [← h.reverse_reverse hw x, hx, hones]
  · rintro rfl
    exact hones

/-- The lowest byte becomes the highest. -/
theorem msb (h : Reverses reverse) (hw : 8 ∣ w) (hpos : 0 < w) (x : BitVec w) :
    (reverse x).msb = x.getLsbD 7 := by
  have hmirror : mirror w (w - 1) = 7 := by
    unfold mirror
    omega
  rw [BitVec.msb_eq_getLsbD_last, h _ _ (by omega), hmirror]

theorem onesBelow_iff (h : Reverses reverse) (hw : 8 ∣ w) (x : BitVec w) :
    OnesBelow (reverse x) ↔ OnesAbove x := by
  -- the top bit of the byte `i` comes from the byte `w / 8 - 1 - i`
  have htop : ∀ i < w / 8,
      (reverse x).getLsbD (8 * i + 7) = x.getLsbD (8 * (w / 8 - 1 - i) + 7) := by
    intro i hi
    have hmirror : mirror w (8 * i + 7) = 8 * (w / 8 - 1 - i) + 7 := by
      unfold mirror
      omega
    rw [h _ _ (by omega), hmirror]
  constructor
  · intro hbelow i hi hset j hj hij
    have hmirror : mirror w j < 8 * (w / 8 - 1 - i) := by
      unfold mirror
      omega
    have hset' : (reverse x).getLsbD (8 * (w / 8 - 1 - i) + 7) = true := by
      rw [htop _ (by omega), show w / 8 - 1 - (w / 8 - 1 - i) = i by omega]
      exact hset
    have hbit := hbelow _ (by omega) hset' _ hmirror
    rwa [h _ _ (mirror_lt hw hj), mirror_mirror hw hj] at hbit
  · intro habove i hi hset j hj
    rw [htop i hi] at hset
    rw [h _ _ (by omega)]
    refine habove _ (by omega) hset _ (mirror_lt hw (by omega)) ?_
    unfold mirror
    omega

/-- Words are reversed when their halves are. -/
theorem double (h : Reverses reverse) (hw : 8 ∣ w) : Reverses (swap reverse) := by
  intro x i hi
  rw [getLsbD_swap reverse x hi]
  split
  · rename_i hlow
    have hmirror : mirror (w + w) i = w + mirror w i := by
      unfold mirror
      omega
    rw [h _ i hlow, getLsbD_high x (mirror_lt hw hlow), hmirror]
  · have hin : i - w < w := by omega
    have hmirror : mirror (w + w) i = mirror w (i - w) := by
      unfold mirror
      omega
    rw [h _ _ hin, getLsbD_low x (mirror_lt hw hin), hmirror]

end Reverses

/-! ## Signs -/

/-- The condition on a word is that on its halves, and that the lower half is set as a
whole if the lowest sign of the upper half is. -/
theorem onesBelow_iff_halves (hw : 8 ∣ w) (hpos : 0 < w) (x : BitVec (w + w)) :
    OnesBelow x ↔ OnesBelow (high x) ∧ OnesBelow (low x) ∧
      ((high x).getLsbD 7 = true → low x = BitVec.allOnes w) := by
  have hseven : 7 < w := by omega
  have hdouble : (w + w) / 8 = w / 8 + w / 8 := by omega
  constructor
  · intro hx
    refine ⟨fun i hi hset j hj => ?_, fun i hi hset j hj => ?_, fun hset => ?_⟩
    · rw [getLsbD_high x (by omega)] at hset ⊢
      refine hx (w / 8 + i) (by omega) ?_ _ (by omega)
      rwa [show 8 * (w / 8 + i) + 7 = w + (8 * i + 7) by omega]
    · rw [getLsbD_low x (by omega)] at hset ⊢
      exact hx i (by omega) hset j hj
    · rw [getLsbD_high x hseven] at hset
      rw [eq_allOnes_iff]
      intro j hj
      rw [getLsbD_low x hj]
      refine hx (w / 8) (by omega) ?_ j (by omega)
      rwa [show 8 * (w / 8) + 7 = w + 7 by omega]
  · rintro ⟨hhigh, hlow, hall⟩ i hi hset j hj
    by_cases hin : i < w / 8
    · rw [← getLsbD_low x (by omega)] at hset ⊢
      exact hlow i hin hset j hj
    have hset' : (high x).getLsbD (8 * (i - w / 8) + 7) = true := by
      rw [getLsbD_high x (by omega)]
      rwa [show w + (8 * (i - w / 8) + 7) = 8 * i + 7 by omega]
    have hbits := hhigh (i - w / 8) (by omega) hset'
    by_cases hj' : j < w
    · -- the lowest sign of the upper half is set, as the byte `i` or below it
      have hseven' : (high x).getLsbD 7 = true := by
        by_cases hfirst : i = w / 8
        · rwa [hfirst, Nat.sub_self] at hset'
        · exact hbits 7 (by omega)
      rw [← getLsbD_low x hj']
      exact eq_allOnes_iff.mp (hall hseven') j hj'
    · have hbit := hbits (j - w) (by omega)
      rwa [getLsbD_high x (by omega), show w + (j - w) = j by omega] at hbit

/-- The sign of the lower half is or-ed into the upper one. -/
theorem signedSwap_eq_swap_iff_bits (signed unsigned : BitVec w → BitVec w)
    (x : BitVec (w + w)) :
    signedSwap signed x = swap unsigned x ↔
      signed (high x) = unsigned (high x) ∧
        ∀ i < w, ((signed (low x)).getLsbD i || (signed (high x)).msb) =
          (unsigned (low x)).getLsbD i := by
  rw [BitVec.eq_of_getLsbD_eq_iff, BitVec.eq_of_getLsbD_eq_iff]
  constructor
  · intro heq
    refine ⟨fun i hi => ?_, fun i hi => ?_⟩
    · have hbit := heq i (by omega)
      rwa [getLsbD_signedSwap _ x (by omega), getLsbD_swap _ x (by omega), if_pos hi,
        if_pos hi] at hbit
    · have hbit := heq (w + i) (by omega)
      rwa [getLsbD_signedSwap _ x (by omega), getLsbD_swap _ x (by omega),
        if_neg (by omega), if_neg (by omega), Nat.add_sub_cancel_left] at hbit
  · rintro ⟨hhigh, hlow⟩ i hi
    rw [getLsbD_signedSwap _ x hi, getLsbD_swap _ x hi]
    split
    · exact hhigh i (by assumption)
    · exact hlow (i - w) (by omega)

/-- The two agree if they do on the lower half of the result, and its sign is clear and
they agree on the upper half, or set and meets set bits only. -/
theorem signedSwap_eq_swap_iff (signed unsigned : BitVec w → BitVec w) (x : BitVec (w + w)) :
    signedSwap signed x = swap unsigned x ↔
      signed (high x) = unsigned (high x) ∧
        ((unsigned (high x)).msb = false → signed (low x) = unsigned (low x)) ∧
        ((unsigned (high x)).msb = true → unsigned (low x) = BitVec.allOnes w) := by
  rw [signedSwap_eq_swap_iff_bits]
  refine and_congr_right fun hhigh => ?_
  rw [hhigh]
  cases (unsigned (high x)).msb with
  | false =>
      simp only [Bool.or_false, ← BitVec.eq_of_getLsbD_eq_iff, true_implies, Bool.false_eq_true,
        false_implies, and_true]
  | true =>
      constructor
      · intro hlow
        refine ⟨fun hfalse => absurd hfalse (by decide), fun _ => ?_⟩
        rw [eq_allOnes_iff]
        intro i hi
        rw [← hlow i hi, Bool.or_true]
      · rintro ⟨-, hall⟩ i hi
        rw [Bool.or_true, eq_allOnes_iff.mp (hall rfl) i hi]

/-- `unsigned` reverses the bytes, and `signed` does the same where `OnesBelow` holds. -/
structure Swaps (signed unsigned : BitVec w → BitVec w) : Prop where
  reverses : Reverses unsigned
  ones : signed (BitVec.allOnes w) = BitVec.allOnes w
  agree : ∀ x, signed x = unsigned x ↔ OnesBelow x

/-- A byte is its own swap. -/
theorem swaps_byte : Swaps (w := 8) id id where
  reverses x i hi := by
    have hmirror : mirror 8 i = i := by
      unfold mirror
      omega
    rw [hmirror]
    rfl
  ones := rfl
  agree x := iff_of_true rfl fun i hi _ j hj => by omega

/-- Swaps of words from swaps of their halves. -/
theorem Swaps.double {signed unsigned : BitVec w → BitVec w} (h : Swaps signed unsigned)
    (hw : 8 ∣ w) (hpos : 0 < w) : Swaps (signedSwap signed) (swap unsigned) where
  reverses := h.reverses.double hw
  ones := by
    rw [eq_allOnes_iff]
    intro i hi
    rw [getLsbD_signedSwap signed _ hi, low_allOnes, high_allOnes, h.ones]
    split
    · exact eq_allOnes_iff.mp rfl i (by assumption)
    · rw [eq_allOnes_iff.mp rfl (i - w) (by omega), Bool.true_or]
  agree x := by
    rw [signedSwap_eq_swap_iff, onesBelow_iff_halves hw hpos, h.agree, ← h.agree (low x),
      h.reverses.msb hw hpos, h.reverses.eq_allOnes_iff hw]
    refine and_congr_right fun _ => ?_
    cases hset : (high x).getLsbD 7 with
    | false => simp
    | true =>
        simp only [Bool.true_eq_false, false_implies, true_and, true_implies]
        refine (and_iff_right_of_imp fun hones => ?_).symm
        rw [hones, h.ones, (h.reverses.eq_allOnes_iff hw _).mpr rfl]

end HalfSwaps
end Deps
