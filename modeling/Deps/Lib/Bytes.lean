import Mathlib.Data.List.Basic
import Mathlib.Tactic

/-!
# Fixed-width byte encodings of natural numbers

`toLE width n` is the little-endian encoding of `n` in exactly `width` bytes,
`ofLE` reads it back.  The big-endian encoding is the reverse of it.
-/

namespace Deps
namespace Bytes

/-- The low `width` bytes of `n`, least significant first. -/
def toLE : Nat → Nat → List UInt8
  | 0, _ => []
  | width + 1, n => UInt8.ofNat n :: toLE width (n / 256)

/-- The number whose bytes are given least significant first. -/
def ofLE : List UInt8 → Nat
  | [] => 0
  | byte :: rest => byte.toNat + 256 * ofLE rest

@[simp] theorem length_toLE (width n : Nat) : (toLE width n).length = width := by
  induction width generalizing n with
  | zero => rfl
  | succ width ih => simp [toLE, ih]

theorem ofLE_toLE (width n : Nat) : ofLE (toLE width n) = n % 256 ^ width := by
  induction width generalizing n with
  | zero => simp [toLE, ofLE, Nat.mod_one]
  | succ width ih =>
      rw [toLE, ofLE, ih, Nat.pow_succ', Nat.mod_mul]
      rfl

theorem ofLE_toLE_of_lt {width n : Nat} (h : n < 256 ^ width) :
    ofLE (toLE width n) = n := by
  rw [ofLE_toLE, Nat.mod_eq_of_lt h]

/-- A list of bytes is the encoding of the number which it stands for. -/
theorem toLE_ofLE (bytes : List UInt8) : toLE bytes.length (ofLE bytes) = bytes := by
  induction bytes with
  | nil => rfl
  | cons byte rest ih =>
      have hbyte : byte.toNat < 256 := byte.toNat_lt
      have hlow : (byte.toNat + 256 * ofLE rest) % 256 = byte.toNat := by omega
      have hhigh : (byte.toNat + 256 * ofLE rest) / 256 = ofLE rest := by omega
      rw [List.length_cons, ofLE, toLE, hhigh, ih, ← UInt8.ofNat_mod_size, hlow, UInt8.ofNat_toNat]

theorem ofLE_append (xs ys : List UInt8) :
    ofLE (xs ++ ys) = ofLE xs + 256 ^ xs.length * ofLE ys := by
  induction xs with
  | nil => simp [ofLE]
  | cons x xs ih =>
      rw [List.cons_append, ofLE, ofLE, ih, List.length_cons, Nat.pow_succ']
      ring

theorem ofLE_lt (bytes : List UInt8) : ofLE bytes < 256 ^ bytes.length := by
  induction bytes with
  | nil => exact Nat.one_pos
  | cons byte rest ih =>
      have hbyte : byte.toNat < 256 := byte.toNat_lt
      rw [ofLE, List.length_cons, Nat.pow_succ']
      omega

theorem toLE_add (width width' n : Nat) :
    toLE (width + width') n = toLE width n ++ toLE width' (n / 256 ^ width) := by
  induction width generalizing n with
  | zero => simp [toLE]
  | succ width ih =>
      rw [Nat.add_right_comm, toLE, toLE, ih, List.cons_append, Nat.div_div_eq_div_mul,
        ← Nat.pow_succ']

/-- Only the low bytes count. -/
theorem toLE_mod (width n : Nat) : toLE width (n % 256 ^ width) = toLE width n := by
  induction width generalizing n with
  | zero => rfl
  | succ width ih =>
      have hlow : UInt8.ofNat (n % 256 ^ (width + 1)) = UInt8.ofNat n := by
        rw [← UInt8.ofNat_mod_size, Nat.pow_succ', Nat.mod_mul_right_mod, UInt8.ofNat_mod_size]
      have hhigh : n % 256 ^ (width + 1) / 256 = n / 256 % 256 ^ width := by
        rw [Nat.pow_succ', Nat.mod_mul_right_div_self]
      rw [toLE, toLE, hlow, hhigh, ih]

/-- The number with the bytes of `n` in the other order. -/
def swap (width n : Nat) : Nat := ofLE (toLE width n).reverse

/-- The halves change places. -/
theorem swap_add_self (width n : Nat) :
    swap (width + width) n =
      swap width (n / 256 ^ width) + 256 ^ width * swap width (n % 256 ^ width) := by
  rw [swap, toLE_add, List.reverse_append, ofLE_append, List.length_reverse, length_toLE, swap,
    swap, toLE_mod]

theorem toLE_swap (width n : Nat) : toLE width (swap width n) = (toLE width n).reverse := by
  have h := toLE_ofLE (toLE width n).reverse
  rwa [List.length_reverse, length_toLE] at h

theorem swap_ofLE (bytes : List UInt8) : swap bytes.length (ofLE bytes) = ofLE bytes.reverse := by
  rw [swap, toLE_ofLE]

end Bytes
end Deps
