import Deps.Lib.HalfSwaps
import Deps.Net.HostAgreement

/-!
# Signed and unsigned swaps

The signed overloads of `XHTONS`, `XHTONL` and `XHTONLL` are the unsigned ones with other
types, so that a shift or a conversion brings the sign of a half along where the unsigned
ones bring zeros.  Here both are the swaps of `Lib.HalfSwaps`, which says for which bit
patterns the signs do no harm.  `push_int64` swaps unsigned and `pop_int64` signed.
-/

namespace Deps
namespace Net

open Bytes
open HalfSwaps (Swaps OnesBelow OnesAbove swap_id signedSwap_id signExtend_low
  signExtend_high)

namespace Host

/-! ## The overloads on bit patterns -/

def patternUInt16 (x : BitVec 16) : BitVec 16 := (swapUInt16 ⟨x⟩).toBitVec

def patternUInt32 (x : BitVec 32) : BitVec 32 := (swapUInt32 ⟨x⟩).toBitVec

def patternUInt64 (x : BitVec 64) : BitVec 64 := (swapUInt64 ⟨x⟩).toBitVec

def patternInt16 (x : BitVec 16) : BitVec 16 := (swapInt16 (.ofBitVec x)).toBitVec

def patternInt32 (x : BitVec 32) : BitVec 32 := (swapInt32 (.ofBitVec x)).toBitVec

def patternInt64 (x : BitVec 64) : BitVec 64 := (swapInt64 (.ofBitVec x)).toBitVec

theorem patternUInt16_eq : patternUInt16 = HalfSwaps.swap (w := 8) id :=
  funext fun x => (swap_id (w := 8) x).symm

theorem patternInt16_eq : patternInt16 = HalfSwaps.signedSwap (w := 8) id :=
  funext fun x => (signedSwap_id (w := 8) x).symm

theorem patternUInt32_eq : patternUInt32 = HalfSwaps.swap (w := 16) patternUInt16 := rfl

theorem patternUInt64_eq : patternUInt64 = HalfSwaps.swap (w := 32) patternUInt32 := rfl

/-- A conversion to the half type cuts, after the shift too. -/
theorem patternInt32_eq : patternInt32 = HalfSwaps.signedSwap (w := 16) patternInt16 := by
  funext x
  have hlow : (Int32.ofBitVec x).toInt16 = .ofBitVec (HalfSwaps.low (w := 16) x) := by
    apply Int16.toBitVec_inj.mp
    exact signExtend_low (w := 16) x
  have hhigh : (Int32.ofBitVec x >>> 16).toInt16 = .ofBitVec (HalfSwaps.high (w := 16) x) := by
    apply Int16.toBitVec_inj.mp
    exact signExtend_high (w := 16) x
  show (((swapInt16 (Int32.ofBitVec x).toInt16).toInt32 <<< 16) |||
    (swapInt16 (Int32.ofBitVec x >>> 16).toInt16).toInt32).toBitVec = _
  rw [hlow, hhigh]
  rfl

theorem patternInt64_eq : patternInt64 = HalfSwaps.signedSwap (w := 32) patternInt32 := by
  funext x
  have hlow : (Int64.ofBitVec x).toInt32 = .ofBitVec (HalfSwaps.low (w := 32) x) := by
    apply Int32.toBitVec_inj.mp
    exact signExtend_low (w := 32) x
  have hhigh : (Int64.ofBitVec x >>> 32).toInt32 = .ofBitVec (HalfSwaps.high (w := 32) x) := by
    apply Int32.toBitVec_inj.mp
    exact signExtend_high (w := 32) x
  show (((swapInt32 (Int64.ofBitVec x).toInt32).toInt64 <<< 32) |||
    (swapInt32 (Int64.ofBitVec x >>> 32).toInt32).toInt64).toBitVec = _
  rw [hlow, hhigh]
  rfl

theorem swaps16 : Swaps patternInt16 patternUInt16 := by
  rw [patternInt16_eq, patternUInt16_eq]
  exact HalfSwaps.swaps_byte.double (by decide) (by decide)

theorem swaps32 : Swaps patternInt32 patternUInt32 := by
  rw [patternInt32_eq, patternUInt32_eq]
  exact swaps16.double (by decide) (by decide)

theorem swaps64 : Swaps patternInt64 patternUInt64 := by
  rw [patternInt64_eq, patternUInt64_eq]
  exact swaps32.double (by decide) (by decide)

/-! ## What the unsigned overloads do -/

variable {h : Host}

theorem toLE_order (hswaps : h.swaps = true) (width n : Nat) :
    toLE width (h.order width n) = (toLE width n).reverse := by
  rw [order, if_pos hswaps, toLE_swap]

theorem xhtons_xhtons (hswaps : h.swaps = true) (x : UInt16) : h.xhtons (h.xhtons x) = x := by
  apply UInt16.toBitVec_inj.mp
  rw [xhtons, xhtons, if_pos hswaps, if_pos hswaps]
  exact swaps16.reverses.reverse_reverse (by decide) x.toBitVec

theorem xhtonl_xhtonl (hswaps : h.swaps = true) (x : UInt32) : h.xhtonl (h.xhtonl x) = x := by
  apply UInt32.toBitVec_inj.mp
  rw [xhtonl, xhtonl, if_pos hswaps, if_pos hswaps]
  exact swaps32.reverses.reverse_reverse (by decide) x.toBitVec

theorem xhtonll_xhtonll (hswaps : h.swaps = true) (x : UInt64) :
    h.xhtonll (h.xhtonll x) = x := by
  apply UInt64.toBitVec_inj.mp
  rw [xhtonll, xhtonll, if_pos hswaps, if_pos hswaps]
  exact swaps64.reverses.reverse_reverse (by decide) x.toBitVec

/-! ## Where the signed ones do the same -/

theorem xhtonsSigned_iff (hswaps : h.swaps = true) (x : Int16) :
    (h.xhtonsSigned x).toUInt16 = h.xhtons x.toUInt16 ↔ OnesBelow x.toBitVec := by
  rw [xhtonsSigned, xhtons, if_pos hswaps, if_pos hswaps, ← UInt16.toBitVec_inj]
  exact swaps16.agree x.toBitVec

theorem xhtonlSigned_iff (hswaps : h.swaps = true) (x : Int32) :
    (h.xhtonlSigned x).toUInt32 = h.xhtonl x.toUInt32 ↔ OnesBelow x.toBitVec := by
  rw [xhtonlSigned, xhtonl, if_pos hswaps, if_pos hswaps, ← UInt32.toBitVec_inj]
  exact swaps32.agree x.toBitVec

theorem xhtonllSigned_iff (hswaps : h.swaps = true) (x : Int64) :
    (h.xhtonllSigned x).toUInt64 = h.xhtonll x.toUInt64 ↔ OnesBelow x.toBitVec := by
  rw [xhtonllSigned, xhtonll, if_pos hswaps, if_pos hswaps, ← UInt64.toBitVec_inj]
  exact swaps64.agree x.toBitVec

/-- The signed swap undoes the unsigned one where it is the unsigned one. -/
theorem xhtonllSigned_xhtonll_iff (hswaps : h.swaps = true) (x : Int64) :
    (h.xhtonllSigned (h.xhtonll x.toUInt64).toInt64).toUInt64 = x.toUInt64 ↔
      OnesAbove x.toBitVec := by
  have hback : h.xhtonll (h.xhtonll x.toUInt64) = x.toUInt64 := xhtonll_xhtonll hswaps _
  have hiff := xhtonllSigned_iff hswaps (h.xhtonll x.toUInt64).toInt64
  rw [UInt64.toUInt64_toInt64, hback] at hiff
  rw [hiff, xhtonll, if_pos hswaps]
  exact swaps64.reverses.onesBelow_iff (by decide) x.toBitVec

/-! ## The wire -/

/-- What `pop_int64` makes of what `push_int64` has appended. -/
theorem popInt64_pushInt64 (h : Host) (x : UInt64) {st : PackBuffer} (hst : st.Inv)
    (hpush : (Pack.pushInt64 h x st).1 = .ok ()) {u : Unpack} {tail : List UInt8}
    (hat : Wire.At u ((Pack.pushInt64 h x st).2.content.drop st.content.length ++ tail)) :
    (Unpack.popInt64 h u).1 = .ok (h.xhtonllSigned (h.xhtonll x).toInt64).toUInt64 := by
  obtain ⟨-, hcontent⟩ := (Appends.push (h.store 8 (h.xhtonll x).toNat)).ok hst hpush
  have hcontent : (Pack.pushInt64 h x st).2.content =
      st.content ++ h.store 8 (h.xhtonll x).toNat := hcontent
  rw [hcontent, List.drop_left] at hat
  obtain ⟨u', hpop, -⟩ := Wire.pops_fixed (h.length_store 8 (h.xhtonll x).toNat)
    "pop_int64: not enough data"
    (fun bytes => (h.xhtonllSigned (UInt64.ofNat (h.load bytes)).toInt64).toUInt64) u tail hat
  have hpop : Unpack.popInt64 h u = _ := hpop
  rw [hpop, h.load_store (h.xhtonll x).toNat_lt, UInt64.ofNat_toNat]

/-- A new buffer has room for an integer, which is then all that it holds. -/
theorem pushInt64_new (h : Host) (x : UInt64) :
    let st := PackBuffer.new fun _ => some fun _ => 0
    let pushed := Pack.pushInt64 h x st
    pushed.1 = .ok () ∧ pushed.2.content = h.store 8 (h.xhtonll x).toNat ∧
      Wire.At (Unpack.new pushed.2.content) (pushed.2.content.drop st.content.length ++ []) := by
  intro st pushed
  have happends := Appends.push (h.store 8 (h.xhtonll x).toNat)
  have hinv : st.Inv := PackBuffer.inv_new _
  have hroom : st.size + (h.store 8 (h.xhtonll x).toNat).length ≤ 65536 := by
    rw [length_store]
    decide
  obtain ⟨hok, -⟩ := happends.room hinv trivial (fun _ => rfl) hroom
  have hempty : st.content.length = 0 := hinv.length_content
  refine ⟨hok, (happends.ok hinv hok).2, ?_⟩
  rw [hempty, List.drop_zero, List.append_nil]
  exact ⟨Nat.zero_le _, rfl, le_rfl⟩

/-- **Where signed and unsigned swaps agree.**  On the swapping branch the unsigned
overloads reverse the bytes and undo themselves.  A signed overload does the same if and
only if below every byte with its sign bit set there are only set bits, and `pop_int64`
returns what `push_int64` was given if and only if there are only set bits above. -/
theorem signed_swaps_agree_iff {h : Host} (hswaps : h.swaps = true) :
    ((∀ x : UInt16, toLE 2 (h.xhtons x).toNat = (toLE 2 x.toNat).reverse ∧
        h.xhtons (h.xhtons x) = x) ∧
      (∀ x : UInt32, toLE 4 (h.xhtonl x).toNat = (toLE 4 x.toNat).reverse ∧
        h.xhtonl (h.xhtonl x) = x) ∧
      ∀ x : UInt64, toLE 8 (h.xhtonll x).toNat = (toLE 8 x.toNat).reverse ∧
        h.xhtonll (h.xhtonll x) = x) ∧
    ((∀ x : Int16, (h.xhtonsSigned x).toUInt16 = h.xhtons x.toUInt16 ↔ OnesBelow x.toBitVec) ∧
      (∀ x : Int32, (h.xhtonlSigned x).toUInt32 = h.xhtonl x.toUInt32 ↔
        OnesBelow x.toBitVec) ∧
      ∀ x : Int64, (h.xhtonllSigned x).toUInt64 = h.xhtonll x.toUInt64 ↔
        OnesBelow x.toBitVec) ∧
    ∀ (x : Int64) (st : PackBuffer) (u : Unpack) (tail : List UInt8), st.Inv →
      (Pack.pushInt64 h x.toUInt64 st).1 = .ok () →
      Wire.At u ((Pack.pushInt64 h x.toUInt64 st).2.content.drop st.content.length ++ tail) →
      ((Unpack.popInt64 h u).1 = .ok x.toUInt64 ↔ OnesAbove x.toBitVec) := by
  refine ⟨⟨fun x => ⟨?_, xhtons_xhtons hswaps x⟩, fun x => ⟨?_, xhtonl_xhtonl hswaps x⟩,
    fun x => ⟨?_, xhtonll_xhtonll hswaps x⟩⟩, ⟨xhtonsSigned_iff hswaps,
    xhtonlSigned_iff hswaps, xhtonllSigned_iff hswaps⟩, fun x st u tail hst hpush hat => ?_⟩
  · rw [toNat_xhtons, toLE_order hswaps]
  · rw [toNat_xhtonl, toLE_order hswaps]
  · rw [toNat_xhtonll, toLE_order hswaps]
  · rw [popInt64_pushInt64 h x.toUInt64 hst hpush hat, Except.ok.injEq]
    exact xhtonllSigned_xhtonll_iff hswaps x

/-- The value 128 is pushed as it should be and popped as -128. -/
theorem int64_returns_negative :
    let st := PackBuffer.new fun _ => some fun _ => 0
    let pushed := Pack.pushInt64 .arm (128 : Int64).toUInt64 st
    pushed.1 = .ok () ∧ pushed.2.content = [0, 0, 0, 0, 0, 0, 0, 128] ∧
      (Unpack.popInt64 .arm (Unpack.new pushed.2.content)).1 = .ok (-128 : Int64).toUInt64 ∧
      (-128 : Int64).toUInt64 ≠ (128 : Int64).toUInt64 := by
  intro st pushed
  obtain ⟨hok, hcontent, hat⟩ := pushInt64_new .arm (128 : Int64).toUInt64
  have hpop := popInt64_pushInt64 .arm (128 : Int64).toUInt64 (PackBuffer.inv_new _) hok hat
  exact ⟨hok, hcontent.trans (by decide), hpop.trans (by decide), by decide⟩

/-- The theorem on an ARM host, for the value 1. -/
theorem signed_swaps_agree_iff_one :
    let st := PackBuffer.new fun _ => some fun _ => 0
    let pushed := Pack.pushInt64 .arm (1 : Int64).toUInt64 st
    (arm.xhtonllSigned 1).toUInt64 = arm.xhtonll (1 : Int64).toUInt64 ∧ pushed.1 = .ok () ∧
      (Unpack.popInt64 .arm (Unpack.new pushed.2.content)).1 = .ok (1 : Int64).toUInt64 := by
  intro st pushed
  obtain ⟨-, ⟨-, -, hagree⟩, hreturns⟩ := signed_swaps_agree_iff (rfl : arm.swaps = true)
  obtain ⟨hok, -, hat⟩ := pushInt64_new .arm (1 : Int64).toUInt64
  refine ⟨(hagree 1).mpr (by decide), hok, ?_⟩
  exact (hreturns 1 _ _ [] (PackBuffer.inv_new _) hok hat).mpr (by decide)

end Host
end Net
end Deps
