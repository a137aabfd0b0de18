import Deps.Lib.Throwing
import Deps.Net.Host
import Deps.Net.BlockBufferRefinement

/-!
# `PackBuffer` and `Pack`

The writing half of `net/marshall.h`.  A `PackBuffer` is a `BlockBuffer` of at
most sixteen 4 KiB blocks whose failures are thrown as `PackError`.  `PackM` is
a computation on one such buffer; a throw leaves the buffer as the computation
left it.  The outcomes of `malloc` are part of the state: every call into the
underlying buffer takes the next one.
-/

namespace Deps
namespace Net

structure PackError where
  what : String
  deriving DecidableEq, Repr

/-- `BlockBuffer<def_block_alloc_4k, 16>` -/
def packConfig : BlockConfig where
  requestedSize := 4 * 1024
  maxBlocks := 16
  requestedSize_pos := by decide
  requestedSize_lt := by decide
  maxBlocks_pos := by decide
  maxBlocks_lt := by decide

/-- A packet buffer, together with the outcomes of the calls of `malloc` to come. -/
structure PackBuffer where
  bb : BlockBuffer packConfig
  mallocs : Nat → Malloc

/-- A computation on a packet buffer which may throw. -/
abbrev PackM := Throwing PackError PackBuffer

namespace PackBuffer

/-- The constructor. -/
def new (mallocs : Nat → Malloc) : PackBuffer := ⟨BlockBuffer.new packConfig, mallocs⟩

def size (st : PackBuffer) : Nat := st.bb.size

/-- The bytes `data()[0 .. size())`. -/
def content (st : PackBuffer) : List UInt8 := st.bb.content

/-- Call the buffer, and throw when it returns `false`. -/
def orThrow (what : String)
    (op : Malloc → BlockBuffer packConfig → Bool × BlockBuffer packConfig) : PackM Unit :=
  fun st =>
    let st' (bb : BlockBuffer packConfig) : PackBuffer := ⟨bb, fun i => st.mallocs (i + 1)⟩
    match op (st.mallocs 0) st.bb with
    | (true, bb) => (.ok (), st' bb)
    | (false, bb) => (.error ⟨what⟩, st' bb)

def resize (n : Nat) : PackM Unit :=
  orThrow "resize buffer overflow" fun malloc bb => bb.resize malloc n 0

def append (bytes : List UInt8) : PackM Unit :=
  orThrow "append buffer overflow" fun malloc bb => bb.append malloc bytes

def replace (pos : Nat) (rep : List UInt8) : PackM Unit :=
  orThrow "replace buffer overflow" fun malloc bb => bb.replace malloc pos rep

def reserve (n : Nat) : PackM Unit :=
  orThrow "reserve buffer overflow" fun malloc bb => bb.reserve malloc n

end PackBuffer

/-- A view of a packet buffer from `offset` on. -/
structure Pack where
  offset : Nat

namespace Pack

/-- The constructor: the view starts `off` bytes behind the current end, and the
buffer grows to there. -/
def new (off : Nat) : PackM Pack := fun st =>
  let offset := st.size + off
  (do PackBuffer.resize offset; pure ⟨offset⟩ : PackM Pack) st

/-- The bytes `data()[0 .. size())`. -/
def data (p : Pack) (st : PackBuffer) : List UInt8 := st.content.drop p.offset

def size (p : Pack) (st : PackBuffer) : Nat := sizeSub st.size p.offset

def push (bytes : List UInt8) : PackM Unit := PackBuffer.append bytes

def pushUint8 (u8 : UInt8) : PackM Unit := push [u8]

def pushUint16 (h : Host) (u16 : UInt16) : PackM Unit :=
  let u16 := h.xhtons u16
  push (h.store 2 u16.toNat)

def pushUint32 (h : Host) (u32 : UInt32) : PackM Unit :=
  let u32 := h.xhtonl u32
  push (h.store 4 u32.toNat)

def pushUint64 (h : Host) (u64 : UInt64) : PackM Unit :=
  let u64 := h.xhtonll u64
  push (h.store 8 u64.toNat)

/-- The argument is `uint64_t`, so the unsigned swap is taken. -/
def pushInt64 (h : Host) (u64 : UInt64) : PackM Unit :=
  let u64 := h.xhtonll u64
  push (h.store 8 u64.toNat)

/-- A `double`, given by its bit pattern, is copied as it lies in memory. -/
def pushDouble (h : Host) (dbl : UInt64) : PackM Unit :=
  push (h.store 8 dbl.toNat)

def pushVarstr (h : Host) (s : List UInt8) : PackM Unit :=
  if s.length > 0xFFFF then throw ⟨"push_varstr: varstr too big"⟩
  else do
    pushUint16 h (UInt16.ofNat s.length)
    push s

def pushVarstr32 (h : Host) (s : List UInt8) : PackM Unit :=
  if s.length > 0xFFFFFFFF then throw ⟨"push_varstr32: varstr too big"⟩
  else do
    pushUint32 h (UInt32.ofNat s.length)
    push s

/-- `replace`; `pos` is an offset into the buffer, not into this view. -/
def replace (pos : Nat) (data : List UInt8) : PackM Nat := do
  PackBuffer.replace pos data
  pure (pos + data.length)

def replaceUint8 (pos : Nat) (u8 : UInt8) : PackM Nat := replace pos [u8]

def replaceUint16 (h : Host) (pos : Nat) (u16 : UInt16) : PackM Nat :=
  let u16 := h.xhtons u16
  replace pos (h.store 2 u16.toNat)

def replaceUint32 (h : Host) (pos : Nat) (u32 : UInt32) : PackM Nat :=
  let u32 := h.xhtonl u32
  replace pos (h.store 4 u32.toNat)

end Pack

/-! ## What a writing computation does to the buffer -/

namespace PackBuffer

/-- The invariant of a packet buffer: its maximum is never changed. -/
structure Inv (st : PackBuffer) : Prop where
  bb : st.bb.Inv
  maxblocks : st.bb.maxblocks = 16

/-- No call of `malloc` to come fails. -/
def Allocates (st : PackBuffer) : Prop := ∀ i, (st.mallocs i).isSome = true

theorem inv_new (mallocs : Nat → Malloc) : (new mallocs).Inv := ⟨BlockBuffer.inv_new, rfl⟩

theorem orThrow_allocates (what : String)
    (op : Malloc → BlockBuffer packConfig → Bool × BlockBuffer packConfig) :
    Throwing.Keeps Allocates (orThrow what op) := by
  intro st hst
  unfold orThrow
  split <;> exact fun i => hst (i + 1)

namespace Inv

variable {st : PackBuffer}

theorem length_content (hst : st.Inv) : st.content.length = st.size := hst.bb.length_content

theorem maxsize (hst : st.Inv) : st.bb.maxsize = 65536 := by
  rw [BlockBuffer.maxsize, hst.maxblocks]
  rfl

/-- A packet buffer never holds more than sixteen blocks of 4096 bytes. -/
theorem size_le (hst : st.Inv) : st.size ≤ 65536 := by
  calc
    st.size ≤ st.bb.block * 4096 := hst.bb.size_le
    _ ≤ 16 * 4096 := Nat.mul_le_mul_right _ hst.bb.block_le

end Inv

/-- `append` on a packet buffer: it concatenates or it throws and changes
nothing but the outcomes of `malloc` still to come. -/
theorem append_cases {st : PackBuffer} (hst : st.Inv) (bytes : List UInt8) :
    ∃ st', st'.Inv ∧ (st'.mallocs = fun i => st.mallocs (i + 1)) ∧
      ((append bytes st = (.ok (), st') ∧ st'.content = st.content ++ bytes) ∨
        (append bytes st = (.error ⟨"append buffer overflow"⟩, st') ∧
          st'.content = st.content ∧
          (st.size + bytes.length ≤ 65536 → st.mallocs 0 = none))) := by
  rcases BlockBuffer.append_cases hst.bb (st.mallocs 0) bytes with
    ⟨-, bb, heq, hinv, hcontent, hmax, -, -⟩ | ⟨hno, heq⟩
  · refine ⟨⟨bb, fun i => st.mallocs (i + 1)⟩, ⟨hinv, hmax.trans hst.maxblocks⟩, rfl,
      .inl ⟨?_, hcontent⟩⟩
    simp only [append, orThrow, heq]
  · refine ⟨⟨st.bb, fun i => st.mallocs (i + 1)⟩, ⟨hst.bb, hst.maxblocks⟩, rfl,
      .inr ⟨?_, rfl, fun hfits => ?_⟩⟩
    · simp only [append, orThrow, heq]
    · cases hmalloc : st.mallocs 0 with
      | none => rfl
      | some cell =>
          refine absurd (.inr ⟨?_, by simp [hmalloc]⟩) hno
          rw [hst.maxsize]
          exact hfits

/-- `resize` on a packet buffer: it truncates or pads with zeros, or it throws and
changes nothing; a truncation does not throw. -/
theorem resize_cases {st : PackBuffer} (hst : st.Inv) (n : Nat) :
    ∃ st', st'.Inv ∧ (st'.mallocs = fun i => st.mallocs (i + 1)) ∧
      ((resize n st = (.ok (), st') ∧
          st'.content = st.content.take n ++ List.replicate (n - st.size) 0) ∨
        (resize n st = (.error ⟨"resize buffer overflow"⟩, st') ∧
          st'.content = st.content ∧ st.size < n)) := by
  rcases BlockBuffer.resize_cases hst.bb (st.mallocs 0) n 0 with
    ⟨-, bb, heq, hinv, hcontent, hmax, -, -⟩ | ⟨hno, heq⟩
  · refine ⟨⟨bb, fun i => st.mallocs (i + 1)⟩, ⟨hinv, hmax.trans hst.maxblocks⟩, rfl,
      .inl ⟨?_, hcontent⟩⟩
    simp only [resize, orThrow, heq]
  · refine ⟨⟨st.bb, fun i => st.mallocs (i + 1)⟩, ⟨hst.bb, hst.maxblocks⟩, rfl,
      .inr ⟨?_, rfl, ?_⟩⟩
    · simp only [resize, orThrow, heq]
    · by_contra hle
      have hsize : n ≤ st.bb.size := Nat.le_of_not_lt hle
      exact hno (.inl (hsize.trans hst.bb.size_le))

/-- A replacement inside the content of a packet buffer does not throw. -/
theorem replace_inside {st : PackBuffer} (hst : st.Inv) {pos : Nat} {rep : List UInt8}
    (hin : pos + rep.length ≤ st.size) :
    ∃ st', replace pos rep st = (.ok (), st') ∧ st'.Inv ∧
      st'.content = st.content.take pos ++ rep ++ st.content.drop (pos + rep.length) := by
  obtain ⟨bb, heq, hinv, hmax, hcontent⟩ :=
    BlockBuffer.replace_inside hst.bb (st.mallocs 0) hin
  refine ⟨⟨bb, fun i => st.mallocs (i + 1)⟩, ?_, ⟨hinv, hmax.trans hst.maxblocks⟩, hcontent⟩
  simp only [replace, orThrow, heq]

end PackBuffer

/-- A view which starts `off` bytes behind the end leaves that many zeros there. -/
theorem Pack.new_cases {st : PackBuffer} (hst : st.Inv) (off : Nat) :
    (∃ st', Pack.new off st = (.ok ⟨st.size + off⟩, st') ∧ st'.Inv ∧
        st'.content = st.content ++ List.replicate off 0) ∨
      ∃ e st', Pack.new off st = (.error e, st') ∧ st'.Inv := by
  have hlen := hst.length_content
  obtain ⟨st', hinv, -, ⟨heq, hcontent⟩ | ⟨heq, -, -⟩⟩ :=
    PackBuffer.resize_cases hst (st.size + off)
  · refine .inl ⟨st', ?_, hinv, ?_⟩
    · exact Throwing.bind_of_ok heq
    · rw [hcontent, List.take_of_length_le (by omega), Nat.add_sub_cancel_left]
  · exact .inr ⟨_, st', Throwing.bind_of_error heq, hinv⟩

/-- `x` appends `bytes`: it keeps the buffer's invariant; on a normal return the
content grew by exactly `bytes`; after a throw it grew by a prefix of them; and
it returns normally when `fits` holds, there is room and `malloc` delivers. -/
structure Appends (x : PackM Unit) (bytes : List UInt8) (fits : Prop) : Prop where
  inv : ∀ {st}, st.Inv → (x st).2.Inv
  ok : ∀ {st}, st.Inv → (x st).1 = .ok () →
    fits ∧ (x st).2.content = st.content ++ bytes
  error : ∀ {st e}, st.Inv → (x st).1 = .error e →
    ∃ written, written <+: bytes ∧ (x st).2.content = st.content ++ written
  room : ∀ {st}, st.Inv → fits → st.Allocates → st.size + bytes.length ≤ 65536 →
    (x st).1 = .ok () ∧ (x st).2.Allocates

namespace Appends

theorem push (bytes : List UInt8) : Appends (Pack.push bytes) bytes True := by
  refine ⟨?_, ?_, ?_, ?_⟩
  · intro st hst
    obtain ⟨st', hinv, -, ⟨heq, -⟩ | ⟨heq, -⟩⟩ := PackBuffer.append_cases hst bytes <;>
      simpa only [Pack.push, heq] using hinv
  · intro st hst hok
    obtain ⟨st', -, -, ⟨heq, hcontent⟩ | ⟨heq, -⟩⟩ := PackBuffer.append_cases hst bytes
    · rw [Pack.push, heq]
      exact ⟨trivial, hcontent⟩
    · rw [Pack.push, heq] at hok
      cases hok
  · intro st e hst herror
    obtain ⟨st', -, -, ⟨heq, -⟩ | ⟨heq, hcontent, -⟩⟩ := PackBuffer.append_cases hst bytes
    · rw [Pack.push, heq] at herror
      cases herror
    -- an `append` which throws has written nothing
    · refine ⟨[], List.nil_prefix, ?_⟩
      rw [Pack.push, heq, List.append_nil]
      exact hcontent
  · intro st hst _ halloc hroom
    obtain ⟨st', -, hmallocs, ⟨heq, -⟩ | ⟨heq, -, hfail⟩⟩ := PackBuffer.append_cases hst bytes
    · rw [Pack.push, heq]
      refine ⟨rfl, fun i => ?_⟩
      rw [hmallocs]
      exact halloc (i + 1)
    · have hnone := halloc 0
      rw [hfail hroom] at hnone
      cases hnone

theorem pure : Appends (Pure.pure () : PackM Unit) [] True where
  inv hst := hst
  ok _ _ := ⟨trivial, (List.append_nil _).symm⟩
  error _ h := by cases h
  room _ _ halloc _ := ⟨rfl, halloc⟩

theorem throw (e : PackError) (bytes : List UInt8) :
    Appends (MonadExcept.throw e) bytes False where
  inv hst := hst
  ok _ h := by cases h
  error _ _ := ⟨[], List.nil_prefix, (List.append_nil _).symm⟩
  room _ hfits _ _ := hfits.elim

theorem congr {x : PackM Unit} {bytes bytes' : List UInt8} {fits fits' : Prop}
    (h : Appends x bytes fits) (hbytes : bytes = bytes') (hfits : fits ↔ fits') :
    Appends x bytes' fits' := by
  subst hbytes
  rwa [← propext hfits]

/-- Two computations in sequence append one after the other. -/
theorem seq {x y : PackM Unit} {bytes bytes' : List UInt8} {fits fits' : Prop}
    (hx : Appends x bytes fits) (hy : Appends y bytes' fits') :
    Appends (do x; y) (bytes ++ bytes') (fits ∧ fits') := by
  refine ⟨?_, ?_, ?_, ?_⟩
  · intro st hst
    have hmid := hx.inv hst
    rcases Throwing.bind_split x (fun _ => y) st with ⟨_, mid, hxst, heq⟩ | ⟨e, mid, hxst, heq⟩
    · rw [hxst] at hmid
      rw [heq]
      exact hy.inv hmid
    · rw [hxst] at hmid
      rw [heq]
      exact hmid
  · intro st hst hok
    have hmid := hx.inv hst
    rcases Throwing.bind_split x (fun _ => y) st with ⟨_, mid, hxst, heq⟩ | ⟨e, mid, hxst, heq⟩
    · have hfirst := hx.ok hst (by rw [hxst])
      rw [hxst] at hmid hfirst
      rw [heq] at hok ⊢
      obtain ⟨hfits', hcontent⟩ := hy.ok hmid hok
      refine ⟨⟨hfirst.1, hfits'⟩, ?_⟩
      rw [hcontent, hfirst.2, List.append_assoc]
    · rw [heq] at hok
      cases hok
  · intro st e hst herror
    have hmid := hx.inv hst
    rcases Throwing.bind_split x (fun _ => y) st with ⟨_, mid, hxst, heq⟩ | ⟨e', mid, hxst, heq⟩
    · have hfirst := hx.ok hst (by rw [hxst])
      rw [hxst] at hmid hfirst
      rw [heq] at herror ⊢
      obtain ⟨written, hwritten, hcontent⟩ := hy.error hmid herror
      -- the first half is there as a whole, and a prefix of the second
      refine ⟨bytes ++ written, (List.prefix_append_right_inj bytes).mpr hwritten, ?_⟩
      rw [hcontent, hfirst.2, List.append_assoc]
    -- the second half was never started
    · have hfirst := hx.error hst (by rw [hxst])
      rw [hxst] at hfirst
      rw [heq]
      obtain ⟨written, hwritten, hcontent⟩ := hfirst
      exact ⟨written, hwritten.trans (List.prefix_append _ _), hcontent⟩
  · intro st hst hfits halloc hroom
    rw [List.length_append] at hroom
    obtain ⟨hok, hallocmid⟩ := hx.room hst hfits.1 halloc (by omega)
    have hmid := hx.inv hst
    rcases Throwing.bind_split x (fun _ => y) st with ⟨_, mid, hxst, heq⟩ | ⟨e, mid, hxst, heq⟩
    · have hfirst := (hx.ok hst hok).2
      rw [hxst] at hmid hallocmid hfirst
      have hsize : mid.size = st.size + bytes.length := by
        rw [← hmid.length_content, hfirst, List.length_append, hst.length_content]
      rw [heq]
      exact hy.room hmid hfits.2 hallocmid (by omega)
    · rw [hxst] at hok
      cases hok

end Appends
end Net
end Deps
