import Deps.Lib.OrderedMap
import Deps.Net.Pack
import Deps.Net.Unpack

/-!
# The wire format

`Wire α` describes how values of `α` travel: it is the overload resolution of
`operator<<` and `operator>>`, closed under the templates of `net/marshall.h`.
A record whose `marshal` writes field after field, and a `Mulumable` pair, is a
chain of `record` constructors ending in `voidmable`.

`Wire.push` is `operator<<`, `Wire.extract` is `operator>>`.  An extraction gets
the value its target held before, and returns the target as it is when the
extraction stops, also when it stops with a fault.
-/

namespace Deps
namespace Net

inductive Wire : Type → Type 1 where
  | bool : Wire Bool
  | uint8 : Wire UInt8
  | uint16 : Wire UInt16
  | uint32 : Wire UInt32
  | uint64 : Wire UInt64
  | int64 : Wire Int64
  /-- a `double`, as its bit pattern -/
  | double : Wire UInt64
  /-- `std::string` and `Varstr` -/
  | string : Wire (List UInt8)
  | pair {α β : Type} (a : Wire α) (b : Wire β) : Wire (α × β)
  | vector {α : Type} (a : Wire α) : Wire (List α)
  | map {α β : Type} (order : KeyOrder α) (a : Wire α) (b : Wire β) :
      Wire (OrderedMap order β)
  | set {α : Type} (order : KeyOrder α) (a : Wire α) : Wire (OrderedSet order)
  | voidmable : Wire Unit
  | record {α β : Type} (field : Wire α) (rest : Wire β) : Wire (α × β)

namespace Wire

/-! ## `operator<<` -/

/-- The loop over the elements of a container. -/
def pushEach {α : Type} (push : α → PackM Unit) : List α → PackM Unit
  | [] => pure ()
  | x :: rest => do
      push x
      pushEach push rest

def push (h : Host) : {α : Type} → Wire α → α → PackM Unit
  | _, .bool, sign => Pack.pushUint8 (if sign then 1 else 0)
  | _, .uint8, i8 => Pack.pushUint8 i8
  | _, .uint16, i16 => Pack.pushUint16 h i16
  | _, .uint32, i32 => Pack.pushUint32 h i32
  | _, .uint64, i64 => Pack.pushUint64 h i64
  | _, .int64, i64 => Pack.pushInt64 h i64.toUInt64
  | _, .double, dbl => Pack.pushDouble h dbl
  | _, .string, str => Pack.pushVarstr h str
  | _, .pair a b, p => do
      push h a p.1
      push h b p.2
  | _, .vector a, c => do
      Pack.pushUint32 h (UInt32.ofNat c.length)
      pushEach (push h a) c
  | _, .map _ a b, c => do
      Pack.pushUint32 h (UInt32.ofNat c.size)
      pushEach (fun e => do push h a e.1; push h b e.2) c.entries
  | _, .set _ a, c => do
      Pack.pushUint32 h (UInt32.ofNat c.size)
      pushEach (push h a) (OrderedSet.elements c)
  | _, .voidmable, _ => pure ()
  | _, .record field rest, p => do
      push h field p.1
      push h rest p.2

/-! ## `operator>>` -/

/-- An extraction into a target of type `α`. -/
def Extract (α : Type) : Type := Unpack → α → Except Fault Unit × Unpack × α

/-- `target = f(pop());` -/
def assign {α β : Type} (pop : UnpackM β) (f : β → α) : Extract α := fun u x =>
  match pop u with
  | (.ok b, u) => (.ok (), u, f b)
  | (.error e, u) => (.error e, u, x)

/-- `s >> p.first >> p.second;` -/
def extractPair {α β : Type} (first : Extract α) (second : Extract β) : Extract (α × β) :=
  fun u p =>
    match first u p.1 with
    | (.ok (), u, a) =>
        match second u p.2 with
        | (r, u, b) => (r, u, (a, b))
    | (.error e, u, a) => (.error e, u, (a, p.2))

/-- `for (i = 0; i < count; ++i) s >> c[i];` -/
def extractEach {α : Type} (extract : Extract α) : Extract (List α)
  | u, [] => (.ok (), u, [])
  | u, x :: rest =>
      match extract u x with
      | (.ok (), u, x) =>
          match extractEach extract u rest with
          | (r, u, rest) => (r, u, x :: rest)
      -- the elements behind stay as `resize` has left them
      | (.error e, u, x) => (.error e, u, x :: rest)

/-- `for (; count > 0; --count) { value_type tmp; s >> tmp; c.insert(tmp); }` -/
def insertEach {α γ : Type} (extract : Extract α) (fresh : α) (insert : α → γ → γ) :
    Nat → Extract γ
  | 0, u, c => (.ok (), u, c)
  | count + 1, u, c =>
      match extract u fresh with
      | (.ok (), u, tmp) => insertEach extract fresh insert count u (insert tmp c)
      | (.error e, u, _) => (.error e, u, c)

/-- `c.resize(n)` on a vector. -/
def resizeVector {α : Type} (fresh : α) (c : List α) (n : Nat) : List α :=
  c.take n ++ List.replicate (n - c.length) fresh

/-- A default-constructed object. -/
def fresh : {α : Type} → Wire α → α
  | _, .bool => false
  | _, .uint8 => 0
  | _, .uint16 => 0
  | _, .uint32 => 0
  | _, .uint64 => 0
  | _, .int64 => 0
  | _, .double => 0
  | _, .string => []
  | _, .pair a b => (fresh a, fresh b)
  | _, .vector _ => []
  | _, .map order _ _ => OrderedMap.empty order _
  | _, .set order _ => OrderedMap.empty order Unit
  | _, .voidmable => ()
  | _, .record field rest => (fresh field, fresh rest)

def extract (h : Host) : {α : Type} → Wire α → Extract α
  | _, .bool => assign Unpack.popUint8 fun u8 => if u8 = 0 then false else true
  | _, .uint8 => assign Unpack.popUint8 id
  | _, .uint16 => assign (Unpack.popUint16 h) id
  | _, .uint32 => assign (Unpack.popUint32 h) id
  | _, .uint64 => assign (Unpack.popUint64 h) id
  | _, .int64 => assign (Unpack.popInt64 h) UInt64.toInt64
  | _, .double => assign (Unpack.popDouble h) id
  | _, .string => assign (Unpack.popVarstr h) id
  | _, .pair a b => extractPair (extract h a) (extract h b)
  | _, .vector a => fun u c =>
      match Unpack.popUint32 h u with
      | (.error e, u) => (.error e, u, c)
      | (.ok count, u) =>
          -- there is no `resize` on this path, so a target keeps its elements
          if count = 0 then (.ok (), u, c)
          else extractEach (extract h a) u (resizeVector (fresh a) c count.toNat)
  | _, .map _ a b => fun u c =>
      match Unpack.popUint32 h u with
      | (.error e, u) => (.error e, u, c)
      | (.ok count, u) =>
          insertEach (extractPair (extract h a) (extract h b)) (fresh a, fresh b)
            (fun tmp c => c.insert tmp.1 tmp.2) count.toNat u c
  | _, .set _ a => fun u c =>
      match Unpack.popUint32 h u with
      | (.error e, u) => (.error e, u, c)
      | (.ok count, u) =>
          insertEach (extract h a) (fresh a) (fun tmp c => c.insert tmp ()) count.toNat u c
  | _, .voidmable => fun u _ => (.ok (), u, ())
  | _, .record field rest => extractPair (extract h field) (extract h rest)

end Wire
end Net
end Deps
