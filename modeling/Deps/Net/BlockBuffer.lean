import Deps.Lib.Region

/-!
# `BlockBuffer`

The growable byte buffer of `net/blockbuffer.h`.  Storage is a region of
`block * requestedSize` cells of which the first `size` are content; the cells
behind them hold whatever `malloc` or an earlier, longer content left there.

Every operation of the class calls `malloc` at most once, so an operation takes
the outcome of that call as its first argument and ignores it when it does not
allocate.  `size_t` values are natural numbers; the two subtractions which the
class does not guard, and the sum `pos + n` in `replace`, wrap at `2 ^ 64`.  No
other sum of the class can wrap: block sizes and block counts are `unsigned`.
-/

namespace Deps
namespace Net

/-- `2 ^ 64`, the modulus of `size_t`. -/
def sizeModulus : Nat := 2 ^ 64

/-- Unsigned `size_t` subtraction. -/
def sizeSub (a b : Nat) : Nat :=
  (a + (sizeModulus - b % sizeModulus)) % sizeModulus

theorem sizeSub_eq_sub {a b : Nat} (hle : b ≤ a) (ha : a < sizeModulus) :
    sizeSub a b = a - b := by
  have hb : b % sizeModulus = b := Nat.mod_eq_of_lt (by omega)
  rw [sizeSub, hb, show a + (sizeModulus - b) = a - b + sizeModulus by omega,
    Nat.add_mod_right, Nat.mod_eq_of_lt (by omega)]

/-- The two `unsigned` template arguments of `BlockBuffer`. -/
structure BlockConfig where
  /-- `BlockAllocator::requested_size` -/
  requestedSize : Nat
  /-- `MaxBlocks` -/
  maxBlocks : Nat
  requestedSize_pos : 0 < requestedSize
  requestedSize_lt : requestedSize < 2 ^ 32
  maxBlocks_pos : 0 < maxBlocks
  maxBlocks_lt : maxBlocks < 2 ^ 32

/-- What a call of `malloc` returns: null, or storage with unspecified cells. -/
abbrev Malloc := Option (Nat → UInt8)

/-- `BlockAllocator::ordered_malloc(n)` -/
def BlockConfig.orderedMalloc (cfg : BlockConfig) (malloc : Malloc) (n : Nat) :
    Option (List UInt8) :=
  malloc.map fun cell => (List.range (cfg.requestedSize * n)).map cell

structure BlockBuffer (cfg : BlockConfig) where
  data : Option (List UInt8)
  size : Nat
  block : Nat
  maxblocks : Nat

namespace BlockBuffer

variable {cfg : BlockConfig}

/-- The constructor. -/
def new (cfg : BlockConfig) : BlockBuffer cfg where
  data := none
  size := 0
  block := 0
  maxblocks := cfg.maxBlocks

def empty (b : BlockBuffer cfg) : Bool := b.size == 0

def capacity (b : BlockBuffer cfg) : Nat := b.block * cfg.requestedSize

def maxsize (b : BlockBuffer cfg) : Nat := b.maxblocks * cfg.requestedSize

def maxfree (b : BlockBuffer cfg) : Nat := sizeSub b.maxsize b.size

def freespace (b : BlockBuffer cfg) : Nat := sizeSub b.capacity b.size

def setMaxBlocks (b : BlockBuffer cfg) (maxBlocks : Nat) : BlockBuffer cfg :=
  { b with maxblocks := if maxBlocks > cfg.maxBlocks then cfg.maxBlocks else maxBlocks }

theorem maxblocks_setMaxBlocks (b : BlockBuffer cfg) (maxBlocks : Nat) :
    (b.setMaxBlocks maxBlocks).maxblocks = min maxBlocks cfg.maxBlocks := by
  show (if maxBlocks > cfg.maxBlocks then cfg.maxBlocks else maxBlocks) = _
  split <;> omega

/-- The storage behind `m_data`; a null pointer has none. -/
def storage (b : BlockBuffer cfg) : List UInt8 := b.data.getD []

/-- The bytes `data()[0 .. size())`. -/
def content (b : BlockBuffer cfg) : List UInt8 := Region.view b.storage b.size

/-- Copy `cells` to `m_data + pos`. -/
def poke (b : BlockBuffer cfg) (pos : Nat) (cells : List UInt8) : BlockBuffer cfg :=
  { b with data := b.data.map fun region => Region.write region pos cells }

def free (b : BlockBuffer cfg) : BlockBuffer cfg :=
  if b.block > 0 then { b with data := none, block := 0 } else b

def increaseCapacity (malloc : Malloc) (b : BlockBuffer cfg) (increaseSize : Nat) :
    Bool × BlockBuffer cfg :=
  if increaseSize = 0 then (true, b)
  else if b.freespace ≥ increaseSize then (true, b)
  else
    let missing := increaseSize - b.freespace
    let newblock := b.block + missing / cfg.requestedSize
    let newblock := if missing % cfg.requestedSize > 0 then newblock + 1 else newblock
    if newblock > b.maxblocks then (false, b)
    else
      match cfg.orderedMalloc malloc newblock with
      | none => (false, b)
      | some newdata =>
          -- the content is copied over, and the old blocks are freed
          let newdata :=
            if b.block > 0 then Region.write newdata 0 b.content else newdata
          (true, { b with data := some newdata, block := newblock })

def append (malloc : Malloc) (b : BlockBuffer cfg) (app : List UInt8) :
    Bool × BlockBuffer cfg :=
  if app.length = 0 then (true, b)
  else
    match increaseCapacity malloc b app.length with
    | (true, b) => (true, { b.poke b.size app with size := b.size + app.length })
    | (false, b) => (false, b)

def reserve (malloc : Malloc) (b : BlockBuffer cfg) (n : Nat) : Bool × BlockBuffer cfg :=
  if n ≤ b.capacity then (true, b)
  -- `increaseCapacity` counts from the content, so this may leave less room than `n`
  else increaseCapacity malloc b (n - b.capacity)

def resize (malloc : Malloc) (b : BlockBuffer cfg) (n : Nat) (c : UInt8) :
    Bool × BlockBuffer cfg :=
  if n > b.size then
    let len := n - b.size
    match increaseCapacity malloc b len with
    | (true, b) => (true, { b.poke b.size (List.replicate len c) with size := n })
    | (false, b) => (false, b)
  else (true, { b with size := n })

def replace (malloc : Malloc) (b : BlockBuffer cfg) (pos : Nat) (rep : List UInt8) :
    Bool × BlockBuffer cfg :=
  if pos ≥ b.size then append malloc b rep
  else if (pos + rep.length) % sizeModulus ≥ b.size then
    -- the content is cut before it is known whether the append succeeds
    append malloc { b with size := pos } rep
  else if rep.length > 0 then (true, b.poke pos rep)
  else (true, b)

/-- `erase`, inside its assertion `pos <= size()`. -/
def erase (b : BlockBuffer cfg) (pos n : Nat) (hold : Bool) : BlockBuffer cfg :=
  let m := b.size - pos
  let b :=
    if n ≥ m then { b with size := pos }
    else
      let tail := (b.storage.drop (pos + n)).take (m - n)
      { b.poke pos tail with size := b.size - n }
  if b.empty && !hold then b.free else b

end BlockBuffer
end Net
end Deps
