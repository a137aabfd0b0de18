import Deps.Lib.Rescale

/-!
# NTP time

The conversions of `sys/util.cpp` between microseconds since 1970 and NTP time,
whose upper half counts seconds since 1900 and whose lower half is a fraction of a
second.  All arithmetic is that of `uint64_t`; the local variables `H32bit` and
`L32bit` of both functions have definitions of their own.
-/

namespace Deps
namespace Sys

open Rescale

/-- `SECOND_70_YEAR`, a product of `uint32_t` factors. -/
def second70Year : UInt32 := 60 * 60 * 24 * (365 * 70 + 17)

namespace Utc2Ntp

def h32bit (n : UInt64) : UInt64 := n / 1000000 + second70Year.toUInt64

def l32bit (n : UInt64) : UInt64 := ((n % 1000000) <<< 32) / 1000000

end Utc2Ntp

def utc2Ntp (n : UInt64) : UInt64 := Utc2Ntp.h32bit n <<< 32 ||| Utc2Ntp.l32bit n

namespace Ntp2Utc

def h32bit (n : UInt64) : UInt64 := (n >>> 32) - second70Year.toUInt64

def l32bit (n : UInt64) : UInt64 := ((n &&& 0x00000000ffffffff) * 1000000) >>> 32

end Ntp2Utc

def ntp2Utc (n : UInt64) : UInt64 := Ntp2Utc.h32bit n * 1000000 + Ntp2Utc.l32bit n

/-- A time in microseconds before the year 2036, when the seconds since 1900 need
more than 32 bits. -/
def InEra (n : UInt64) : Prop := n.toNat / 1000000 + second70Year.toNat < 2 ^ 32

instance (n : UInt64) : Decidable (InEra n) := inferInstanceAs (Decidable (_ < _))

/-- An NTP time which is not before 1970. -/
def SinceEpoch (x : UInt64) : Prop := second70Year.toNat ≤ x.toNat / 2 ^ 32

instance (x : UInt64) : Decidable (SinceEpoch x) := inferInstanceAs (Decidable (_ ≤ _))

theorem toNat_second70Year : second70Year.toUInt64.toNat = 2208988800 := by decide

/-- A shift by half of the width is a product or a quotient. -/
theorem toNat_shiftLeft_half (n : UInt64) : (n <<< 32).toNat = n.toNat * 2 ^ 32 % 2 ^ 64 := by
  rw [UInt64.toNat_shiftLeft, Nat.shiftLeft_eq]
  rfl

theorem toNat_shiftRight_half (n : UInt64) : (n >>> 32).toNat = n.toNat / 2 ^ 32 := by
  rw [UInt64.toNat_shiftRight, Nat.shiftRight_eq_div_pow]
  rfl

theorem toNat_div_million (n : UInt64) : (n / 1000000).toNat = n.toNat / 1000000 :=
  UInt64.toNat_div n 1000000

theorem toNat_mul_million (n : UInt64) : (n * 1000000).toNat = n.toNat * 1000000 % 2 ^ 64 :=
  UInt64.toNat_mul n 1000000

/-! ## What the conversions compute -/

namespace Utc2Ntp

/-- The operations of `Utc2Ntp` have the results which they have on numbers without a
bound, and the fraction stays in its half. -/
structure Exact (n : UInt64) : Prop where
  seconds : (h32bit n).toNat = n.toNat / 1000000 + second70Year.toNat
  scaled : ((n % 1000000) <<< 32).toNat = n.toNat % 1000000 * 2 ^ 32
  fraction : (l32bit n).toNat = n.toNat % 1000000 * 2 ^ 32 / 1000000
  fraction_lt : (l32bit n).toNat < 2 ^ 32
  shifted : (h32bit n <<< 32).toNat = (h32bit n).toNat * 2 ^ 32
  joined : (utc2Ntp n).toNat = (h32bit n <<< 32).toNat + (l32bit n).toNat

theorem toNat_h32bit (n : UInt64) : (h32bit n).toNat = n.toNat / 1000000 + 2208988800 := by
  have hn := n.toNat_lt
  unfold h32bit
  rw [UInt64.toNat_add, toNat_div_million, toNat_second70Year]
  omega

theorem toNat_scaled (n : UInt64) :
    ((n % 1000000) <<< 32).toNat = n.toNat % 1000000 * 2 ^ 32 := by
  have hmod : (n % 1000000).toNat = n.toNat % 1000000 := UInt64.toNat_mod n 1000000
  rw [toNat_shiftLeft_half, hmod]
  omega

theorem toNat_l32bit (n : UInt64) :
    (l32bit n).toNat = rescale 1000000 (2 ^ 32) (n.toNat % 1000000) := by
  unfold l32bit
  rw [toNat_div_million, toNat_scaled]
  rfl

theorem l32bit_lt (n : UInt64) : (l32bit n).toNat < 2 ^ 32 := by
  rw [toNat_l32bit]
  exact rescale_lt (by norm_num) (Nat.mod_lt _ (by norm_num))

theorem toNat_shifted {n : UInt64} (hn : InEra n) :
    (h32bit n <<< 32).toNat = (h32bit n).toNat * 2 ^ 32 := by
  have hera : n.toNat / 1000000 + 2208988800 < 2 ^ 32 := hn
  have hh := toNat_h32bit n
  rw [toNat_shiftLeft_half]
  omega

/-- The two halves do not overlap, so the bitwise or is a sum. -/
theorem toNat_joined {n : UInt64} (hn : InEra n) :
    (utc2Ntp n).toNat = (h32bit n <<< 32).toNat + (l32bit n).toNat := by
  unfold utc2Ntp
  rw [UInt64.toNat_or, toNat_shifted hn, Nat.mul_comm, Nat.two_pow_add_eq_or_of_lt (l32bit_lt n)]

theorem exact {n : UInt64} (hn : InEra n) : Exact n where
  seconds := toNat_h32bit n
  scaled := toNat_scaled n
  fraction := toNat_l32bit n
  fraction_lt := l32bit_lt n
  shifted := toNat_shifted hn
  joined := toNat_joined hn

end Utc2Ntp

namespace Ntp2Utc

/-- The operations of `Ntp2Utc` have the results which they have on numbers without a
bound. -/
structure Exact (x : UInt64) : Prop where
  seconds : (h32bit x).toNat + second70Year.toNat = x.toNat / 2 ^ 32
  scaled : ((x &&& 0x00000000ffffffff) * 1000000).toNat = x.toNat % 2 ^ 32 * 1000000
  fraction : (l32bit x).toNat = x.toNat % 2 ^ 32 * 1000000 / 2 ^ 32
  microseconds : (h32bit x * 1000000).toNat = (h32bit x).toNat * 1000000
  joined : (ntp2Utc x).toNat = (h32bit x * 1000000).toNat + (l32bit x).toNat

theorem toNat_h32bit {x : UInt64} (hx : SinceEpoch x) :
    (h32bit x).toNat + 2208988800 = x.toNat / 2 ^ 32 := by
  have hepoch : 2208988800 ≤ x.toNat / 2 ^ 32 := hx
  have hlt := x.toNat_lt
  unfold h32bit
  rw [UInt64.toNat_sub, toNat_shiftRight_half, toNat_second70Year]
  omega

theorem toNat_scaled (x : UInt64) :
    ((x &&& 0x00000000ffffffff) * 1000000).toNat = x.toNat % 2 ^ 32 * 1000000 := by
  have hmask : (x &&& 0x00000000ffffffff).toNat = x.toNat % 2 ^ 32 :=
    (UInt64.toNat_and x _).trans (Nat.and_two_pow_sub_one_eq_mod _ 32)
  rw [toNat_mul_million, hmask]
  omega

theorem toNat_l32bit (x : UInt64) :
    (l32bit x).toNat = rescale (2 ^ 32) 1000000 (x.toNat % 2 ^ 32) := by
  unfold l32bit
  rw [toNat_shiftRight_half, toNat_scaled]
  rfl

theorem l32bit_lt (x : UInt64) : (l32bit x).toNat < 1000000 := by
  rw [toNat_l32bit]
  exact rescale_lt (by norm_num) (Nat.mod_lt _ (by norm_num))

theorem exact {x : UInt64} (hx : SinceEpoch x) : Exact x := by
  have hseconds := toNat_h32bit hx
  have hlt := x.toNat_lt
  have hfraction := l32bit_lt x
  have hmicroseconds : (h32bit x * 1000000).toNat = (h32bit x).toNat * 1000000 := by
    rw [toNat_mul_million]
    omega
  refine ⟨hseconds, toNat_scaled x, toNat_l32bit x, hmicroseconds, ?_⟩
  unfold ntp2Utc
  rw [UInt64.toNat_add, hmicroseconds]
  omega

end Ntp2Utc

theorem toNat_utc2Ntp {n : UInt64} (hn : InEra n) :
    (utc2Ntp n).toNat = (n.toNat / 1000000 + 2208988800) * 2 ^ 32 +
      rescale 1000000 (2 ^ 32) (n.toNat % 1000000) := by
  have hexact := Utc2Ntp.exact hn
  rw [hexact.joined, hexact.shifted, Utc2Ntp.toNat_h32bit, Utc2Ntp.toNat_l32bit]

theorem toNat_ntp2Utc {x : UInt64} (hx : SinceEpoch x) :
    (ntp2Utc x).toNat = (x.toNat / 2 ^ 32 - 2208988800) * 1000000 +
      rescale (2 ^ 32) 1000000 (x.toNat % 2 ^ 32) := by
  have hexact := Ntp2Utc.exact hx
  rw [hexact.joined, hexact.microseconds, ← Ntp2Utc.toNat_h32bit hx, Nat.add_sub_cancel,
    Ntp2Utc.toNat_l32bit]

/-! ## Order -/

theorem InEra.mono {n₁ n₂ : UInt64} (hn : InEra n₂) (hle : n₁.toNat ≤ n₂.toNat) : InEra n₁ :=
  (Nat.add_le_add_right (Nat.div_le_div_right hle) _).trans_lt hn

theorem utc2Ntp_lt_utc2Ntp {n₁ n₂ : UInt64} (hlt : n₁ < n₂) (hn : InEra n₂) :
    utc2Ntp n₁ < utc2Ntp n₂ := by
  rw [UInt64.lt_iff_toNat_lt] at hlt ⊢
  rw [toNat_utc2Ntp hn, toNat_utc2Ntp (hn.mono hlt.le)]
  have hfraction : rescale 1000000 (2 ^ 32) (n₁.toNat % 1000000) < 2 ^ 32 :=
    rescale_lt (by norm_num) (Nat.mod_lt _ (by norm_num))
  rcases Nat.lt_or_ge (n₁.toNat / 1000000) (n₂.toNat / 1000000) with hearlier | hsame
  · omega
  -- in the same second the fractions decide
  · have hmicroseconds : n₁.toNat % 1000000 < n₂.toNat % 1000000 := by omega
    have hfractions := rescale_lt_rescale (q := 2 ^ 32) (by norm_num : 0 < 1000000) (by norm_num)
      hmicroseconds
    omega

theorem ntp2Utc_le_ntp2Utc {x₁ x₂ : UInt64} (hle : x₁ ≤ x₂) (hx : SinceEpoch x₁) :
    ntp2Utc x₁ ≤ ntp2Utc x₂ := by
  rw [UInt64.le_iff_toNat_le] at hle ⊢
  have hseconds : 2208988800 ≤ x₁.toNat / 2 ^ 32 := hx
  have hx₂ : SinceEpoch x₂ := hseconds.trans (Nat.div_le_div_right hle)
  rw [toNat_ntp2Utc hx, toNat_ntp2Utc hx₂]
  have hmicroseconds : rescale (2 ^ 32) 1000000 (x₁.toNat % 2 ^ 32) < 1000000 :=
    rescale_lt (by norm_num) (Nat.mod_lt _ (by norm_num))
  rcases Nat.lt_or_ge (x₁.toNat / 2 ^ 32) (x₂.toNat / 2 ^ 32) with hearlier | hsame
  · omega
  · have hfractions : x₁.toNat % 2 ^ 32 ≤ x₂.toNat % 2 ^ 32 := by omega
    have hmono := rescale_mono (p := 2 ^ 32) (q := 1000000) hfractions
    omega

/-- **The conversions keep the order, and nothing in them overflows.** -/
theorem conversions_ordered_exact :
    (∀ n₁ n₂, n₁ < n₂ → InEra n₂ → utc2Ntp n₁ < utc2Ntp n₂) ∧
      (∀ x₁ x₂, x₁ ≤ x₂ → SinceEpoch x₁ → ntp2Utc x₁ ≤ ntp2Utc x₂) ∧
      (∀ n, InEra n → Utc2Ntp.Exact n) ∧ ∀ x, SinceEpoch x → Ntp2Utc.Exact x :=
  ⟨fun _ _ => utc2Ntp_lt_utc2Ntp, fun _ _ => ntp2Utc_le_ntp2Utc, fun _ => Utc2Ntp.exact,
    fun _ => Ntp2Utc.exact⟩

/-- The theorem at the turn of a second, and at the first second of 1970. -/
theorem conversions_ordered_exact_second :
    utc2Ntp 999999 < utc2Ntp 1000000 ∧ Utc2Ntp.Exact 1000000 ∧ Ntp2Utc.Exact (utc2Ntp 0) := by
  obtain ⟨hlt, -, hutc, hntp⟩ := conversions_ordered_exact
  exact ⟨hlt _ _ (by decide) (by decide), hutc _ (by decide), hntp _ (by decide)⟩

/-! ## There and back -/

def roundTrip (n : UInt64) : UInt64 := ntp2Utc (utc2Ntp n)

/-- Whole numbers of microseconds which are whole numbers of parts of `2 ^ 32`. -/
theorem dvd_microseconds_iff (n : Nat) : 1000000 ∣ n % 1000000 * 2 ^ 32 ↔ 15625 ∣ n := by
  have hfactor : n % 1000000 * 2 ^ 32 = 64 * (n % 1000000 * 2 ^ 26) := by ring
  have hcoprime : Nat.Coprime 15625 (2 ^ 26) := by norm_num
  have hmillion : 15625 ∣ 1000000 := by norm_num
  rw [hfactor, show 1000000 = 64 * 15625 by norm_num, Nat.mul_dvd_mul_iff_left (by norm_num),
    hcoprime.dvd_mul_right]
  exact Nat.dvd_mod_iff hmillion

/-- A fraction of a second which is not a whole number of parts of `2 ^ 32` is rounded
down twice. -/
theorem toNat_roundTrip {n : UInt64} (hn : InEra n) :
    (roundTrip n).toNat = if 15625 ∣ n.toNat then n.toNat else n.toNat - 1 := by
  have hfraction : rescale 1000000 (2 ^ 32) (n.toNat % 1000000) < 2 ^ 32 :=
    rescale_lt (by norm_num) (Nat.mod_lt _ (by norm_num))
  have hntp := toNat_utc2Ntp hn
  have hseconds : (utc2Ntp n).toNat / 2 ^ 32 = n.toNat / 1000000 + 2208988800 := by omega
  have hrest : (utc2Ntp n).toNat % 2 ^ 32 = rescale 1000000 (2 ^ 32) (n.toNat % 1000000) := by
    omega
  have hepoch : SinceEpoch (utc2Ntp n) := by
    show 2208988800 ≤ _
    omega
  have hback := rescale_rescale (q := 2 ^ 32) (by norm_num : 0 < 1000000) (by norm_num)
    (n.toNat % 1000000)
  rw [roundTrip, toNat_ntp2Utc hepoch, hseconds, hrest, hback,
    if_congr (dvd_microseconds_iff n.toNat) rfl rfl]
  split <;> omega

/-- Every round trip takes a microsecond off, down to the last multiple of 15625. -/
theorem toNat_iterate_roundTrip {n : UInt64} (hn : InEra n) (k : Nat) :
    (roundTrip^[k] n).toNat = max (n.toNat - k) (n.toNat - n.toNat % 15625) := by
  induction k with
  | zero =>
      rw [Function.iterate_zero_apply]
      omega
  | succ k ih =>
      rw [Function.iterate_succ_apply', toNat_roundTrip (hn.mono (by omega)), ih]
      split <;> omega

/-- A time comes back from NTP time, and does not drift however often it is converted,
if and only if it is a multiple of 1/64 of a second. -/
theorem roundTrip_returns_iff {n : UInt64} (hn : InEra n) :
    (roundTrip n = n ↔ 15625 ∣ n.toNat) ∧ ((∀ k, roundTrip^[k] n = n) ↔ 15625 ∣ n.toNat) := by
  have hreturns : roundTrip n = n ↔ 15625 ∣ n.toNat := by
    rw [← UInt64.toNat_inj, toNat_roundTrip hn]
    split <;> omega
  refine ⟨hreturns, fun hsteady => hreturns.mp (hsteady 1), fun hdvd k => ?_⟩
  exact Function.iterate_fixed (hreturns.mpr hdvd) k

/-- One microsecond after 1970 becomes 1970. -/
theorem roundTrip_drifts : ∃ n, InEra n ∧ roundTrip n ≠ n := ⟨1, by decide, by decide⟩

/-- The theorem at half a second. -/
theorem roundTrip_returns_iff_half :
    roundTrip 500000 = 500000 ∧ ∀ k, roundTrip^[k] 500000 = 500000 := by
  obtain ⟨honce, hsteady⟩ := roundTrip_returns_iff (n := 500000) (by decide)
  exact ⟨honce.mpr (by decide), hsteady.mpr (by decide)⟩

end Sys
end Deps
