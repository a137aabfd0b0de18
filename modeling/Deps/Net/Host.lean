import Deps.Lib.Bytes

/-!
# Hosts and byte order

`net/marshall.h` chooses between the identity and a byte swap by CPU family, not
by byte order.  A host is a byte order together with the branch the preprocessor
selects for it.  The signed overloads are the ones the source writes for the
signed types; on the swapping branch the narrowing calls inside the signed
`XHTONL` and `XHTONLL` go to the signed overload of the narrower width.
-/

namespace Deps
namespace Net

inductive Host where
  /-- little-endian, identity branch -/
  | x86
  /-- little-endian, swapping branch -/
  | arm
  /-- big-endian, swapping branch -/
  | bigEndian
  deriving DecidableEq, Repr

namespace Host

/-- Whether the preprocessor selects the swapping branch. -/
def swaps : Host → Bool
  | x86 => false
  | arm => true
  | bigEndian => true

/-! ## The swapping branch -/

def swapUInt16 (i16 : UInt16) : UInt16 := (i16 <<< 8) ||| (i16 >>> 8)

def swapUInt32 (i32 : UInt32) : UInt32 :=
  ((swapUInt16 i32.toUInt16).toUInt32 <<< 16) ||| (swapUInt16 (i32 >>> 16).toUInt16).toUInt32

def swapUInt64 (i64 : UInt64) : UInt64 :=
  ((swapUInt32 i64.toUInt32).toUInt64 <<< 32) ||| (swapUInt32 (i64 >>> 32).toUInt32).toUInt64

def swapInt16 (i16 : Int16) : Int16 := (i16 <<< 8) ||| (i16 >>> 8)

def swapInt32 (i32 : Int32) : Int32 :=
  ((swapInt16 i32.toInt16).toInt32 <<< 16) ||| (swapInt16 (i32 >>> 16).toInt16).toInt32

def swapInt64 (i64 : Int64) : Int64 :=
  ((swapInt32 i64.toInt32).toInt64 <<< 32) ||| (swapInt32 (i64 >>> 32).toInt32).toInt64

/-! ## `XHTONS`, `XHTONL` and `XHTONLL`, the same for both directions -/

def xhtons (h : Host) (i16 : UInt16) : UInt16 := if h.swaps then swapUInt16 i16 else i16

def xhtonl (h : Host) (i32 : UInt32) : UInt32 := if h.swaps then swapUInt32 i32 else i32

def xhtonll (h : Host) (i64 : UInt64) : UInt64 := if h.swaps then swapUInt64 i64 else i64

/-- The `int16_t` overload of `XHTONS`. -/
def xhtonsSigned (h : Host) (i16 : Int16) : Int16 := if h.swaps then swapInt16 i16 else i16

/-- The `int32_t` overload of `XHTONL`. -/
def xhtonlSigned (h : Host) (i32 : Int32) : Int32 := if h.swaps then swapInt32 i32 else i32

/-- The `int64_t` overload of `XHTONLL`. -/
def xhtonllSigned (h : Host) (i64 : Int64) : Int64 := if h.swaps then swapInt64 i64 else i64

/-! ## Integers in memory -/

/-- The bytes of an integer object of `width` bytes. -/
def store (h : Host) (width n : Nat) : List UInt8 :=
  match h with
  | bigEndian => (Bytes.toLE width n).reverse
  | _ => Bytes.toLE width n

/-- The integer whose object has the given bytes. -/
def load (h : Host) (bytes : List UInt8) : Nat :=
  match h with
  | bigEndian => Bytes.ofLE bytes.reverse
  | _ => Bytes.ofLE bytes

@[simp] theorem length_store (h : Host) (width n : Nat) : (h.store width n).length = width := by
  cases h <;> simp [store]

/-- An integer object reads back as itself on the host which wrote it. -/
theorem load_store (h : Host) {width n : Nat} (hn : n < 256 ^ width) :
    h.load (h.store width n) = n := by
  cases h <;> simp [store, load, Bytes.ofLE_toLE_of_lt hn]

end Host
end Net
end Deps
