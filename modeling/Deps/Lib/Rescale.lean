import Mathlib.Tactic

/-!
# Fractions at two resolutions

A fraction may be counted in parts of a whole which has `p` of them, or in parts
of a whole which has `q`.  `rescale p q` goes from one to the other and rounds
down.  On the way to finer parts fractions stay apart and in order; on the way
there and back one part is lost, unless nothing was rounded off.
-/

namespace Deps
namespace Rescale

/-- `a` parts of `p`, in parts of `q`. -/
def rescale (p q a : Nat) : Nat := a * q / p

variable {p q a b : Nat}

/-- A fraction stays a fraction. -/
theorem rescale_lt (hq : 0 < q) (ha : a < p) : rescale p q a < q := by
  have hp : 0 < p := Nat.zero_lt_of_lt ha
  rw [rescale, Nat.div_lt_iff_lt_mul hp, Nat.mul_comm q]
  exact Nat.mul_lt_mul_of_pos_right ha hq

theorem rescale_mono (hle : a ≤ b) : rescale p q a ≤ rescale p q b :=
  Nat.div_le_div_right (Nat.mul_le_mul_right q hle)

/-- Finer parts tell fractions apart. -/
theorem rescale_lt_rescale (hp : 0 < p) (hpq : p ≤ q) (hlt : a < b) :
    rescale p q a < rescale p q b := by
  have hmul : (a + 1) * q ≤ b * q := Nat.mul_le_mul_right q hlt
  have hfloor : a * q / p * p ≤ a * q := Nat.div_mul_le_self _ _
  have hnext : a * q / p + 1 ≤ b * q / p := by
    rw [Nat.le_div_iff_mul_le hp, Nat.add_mul, Nat.one_mul]
    rw [Nat.add_mul, Nat.one_mul] at hmul
    omega
  exact hnext

/-- There and back. -/
theorem rescale_rescale (hp : 0 < p) (hpq : p ≤ q) (a : Nat) :
    rescale q p (rescale p q a) = if p ∣ a * q then a else a - 1 := by
  have hq : 0 < q := hp.trans_le hpq
  unfold rescale
  split
  · rename_i hdvd
    rw [Nat.div_mul_cancel hdvd, Nat.mul_div_cancel a hq]
  · rename_i hdvd
    have hpos : 0 < a := by
      rcases Nat.eq_zero_or_pos a with rfl | hpos
      · simp at hdvd
      · exact hpos
    -- what was rounded off is positive, and less than a part of `q`
    have hdiv := Nat.div_add_mod (a * q) p
    have hmod := Nat.mod_lt (a * q) hp
    have hrest : 0 < a * q % p := Nat.pos_of_ne_zero fun h => hdvd (Nat.dvd_of_mod_eq_zero h)
    rw [Nat.mul_comm] at hdiv
    have hwhole : (a - 1) * q + q = a * q := by
      rw [← Nat.succ_mul, Nat.succ_eq_add_one, Nat.sub_add_cancel hpos]
    refine Nat.div_eq_of_lt_le ?_ ?_
    · omega
    · rw [Nat.add_mul, Nat.one_mul]
      omega

end Rescale
end Deps
