import Deps.Lib.Throwing
import Deps.Net.Host

/-!
# `Unpack`

The reading half of `net/marshall.h`: a cursor `m_data` with a remaining size
`m_size` over the bytes given to the constructor.  The cursor is an offset into
these bytes.  Every pop trusts `m_size` for its bounds check, so the bytes it
then touches may lie behind the end of the input; such an access is the fault
`overread`, the undefined behaviour of the source, as opposed to a thrown
`UnpackError`.
-/

namespace Deps
namespace Net

/-- Why a read stopped. -/
inductive Fault where
  /-- `UnpackError` was thrown -/
  | unpackError (what : String)
  /-- bytes outside the input were accessed -/
  | overread
  deriving DecidableEq, Repr

structure Unpack where
  input : List UInt8
  data : Nat
  size : Nat
  deriving DecidableEq, Repr

/-- A computation on an `Unpack` which may stop with a fault. -/
abbrev UnpackM := Throwing Fault Unpack

namespace Unpack

/-- The constructor, `Unpack(data, size)`. -/
def new (input : List UInt8) : Unpack := ⟨input, 0, input.length⟩

/-- The bounds check at the head of every pop. -/
def require (k : Nat) (what : String) : UnpackM Unit := fun u =>
  if u.size < k then (.error (.unpackError what), u) else (.ok (), u)

/-- Access the `k` bytes under the cursor. -/
def access (k : Nat) : UnpackM (List UInt8) := fun u =>
  if u.data + k ≤ u.input.length then (.ok ((u.input.drop u.data).take k), u)
  else (.error .overread, u)

/-- `m_data += k; m_size -= k;` -/
def advance (k : Nat) : UnpackM Unit := fun u =>
  (.ok (), { u with data := u.data + k, size := u.size - k })

/-- `m_data += k;` alone. -/
def advanceData (k : Nat) : UnpackM Unit := fun u => (.ok (), { u with data := u.data + k })

def popUint8 : UnpackM UInt8 := do
  require 1 "pop_uint8: not enough data"
  let bytes ← access 1
  advance 1
  pure (UInt8.ofNat (Bytes.ofLE bytes))

def popUint16 (h : Host) : UnpackM UInt16 := do
  require 2 "pop_uint16: not enough data"
  let bytes ← access 2
  advance 2
  pure (h.xhtons (UInt16.ofNat (h.load bytes)))

def popUint32 (h : Host) : UnpackM UInt32 := do
  require 4 "pop_uint32: not enough data"
  let bytes ← access 4
  advance 4
  pure (h.xhtonl (UInt32.ofNat (h.load bytes)))

def peekUint32 (h : Host) : UnpackM UInt32 := do
  require 4 "peek_uint32: not enough data"
  let bytes ← access 4
  pure (h.xhtonl (UInt32.ofNat (h.load bytes)))

def popUint64 (h : Host) : UnpackM UInt64 := do
  require 8 "pop_uint64: not enough data"
  let bytes ← access 8
  advance 8
  pure (h.xhtonll (UInt64.ofNat (h.load bytes)))

/-- The local is `int64_t`, so the signed swap is taken; the result is `uint64_t`. -/
def popInt64 (h : Host) : UnpackM UInt64 := do
  require 8 "pop_int64: not enough data"
  let bytes ← access 8
  advance 8
  pure (h.xhtonllSigned (UInt64.ofNat (h.load bytes)).toInt64).toUInt64

/-- `pop_double` moves the cursor without reducing `m_size`. -/
def popDouble (h : Host) : UnpackM UInt64 := do
  require 8 "pop_double: not enough data"
  let bytes ← access 8
  advanceData 8
  pure (UInt64.ofNat (h.load bytes))

/-- `pop_fetch_ptr` and `pop_fetch`: the view of the next `k` bytes. -/
def popFetchPtr (k : Nat) : UnpackM (List UInt8) := do
  require k "pop_fetch_ptr: not enough data"
  let bytes ← access k
  advance k
  pure bytes

/-- The head of every pop, the bounds check and the access, in one piece: what
follows runs on the bytes under the cursor, or the pop has stopped. -/
theorem require_access_eq {β : Type} (k : Nat) (what : String) (rest : List UInt8 → UnpackM β)
    (u : Unpack) :
    (do
      require k what
      let bytes ← access k
      rest bytes : UnpackM β) u =
      if u.size < k then (.error (.unpackError what), u)
      else if u.data + k ≤ u.input.length then rest ((u.input.drop u.data).take k) u
      else (.error .overread, u) := by
  by_cases hsize : u.size < k
  · have hrequire : require k what u = (.error (.unpackError what), u) := by
      rw [require, if_pos hsize]
    rw [if_pos hsize, Throwing.bind_of_error hrequire]
  have hrequire : require k what u = (.ok (), u) := by rw [require, if_neg hsize]
  rw [if_neg hsize, Throwing.bind_of_ok hrequire]
  by_cases hinside : u.data + k ≤ u.input.length
  · have haccess : access k u = (.ok ((u.input.drop u.data).take k), u) := by
      rw [access, if_pos hinside]
    rw [if_pos hinside, Throwing.bind_of_ok haccess]
  · have haccess : access k u = (.error .overread, u) := by rw [access, if_neg hinside]
    rw [if_neg hinside, Throwing.bind_of_error haccess]

/-- `pop_varstr_ptr` and `pop_varstr` -/
def popVarstr (h : Host) : UnpackM (List UInt8) := do
  let size ← popUint16 h
  popFetchPtr size.toNat

/-- `pop_varstr32_ptr` and `pop_varstr32` -/
def popVarstr32 (h : Host) : UnpackM (List UInt8) := do
  let size ← popUint32 h
  popFetchPtr size.toNat

def empty (u : Unpack) : Bool := u.size == 0

def finish : UnpackM Unit := fun u =>
  if !u.empty then (.error (.unpackError "finish: too much data"), u) else (.ok (), u)

end Unpack
end Net
end Deps
