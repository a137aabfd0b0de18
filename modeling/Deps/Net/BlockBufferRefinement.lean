import Deps.Net.BlockBuffer

/-!
# `BlockBuffer` refines a bounded list of bytes

All growth of a buffer goes through `increaseCapacity`, so this file says once
what that function can do (`increaseCapacity_cases`) and derives the behaviour
of the five public operations from it.  `Inv` is the invariant of every buffer,
whatever its maximum; `Op.apply` is the list model which the operations refine.
-/

namespace Deps
namespace Net
namespace BlockBuffer

variable {cfg : BlockConfig}

/-- The class invariant: storage is exactly the owned blocks, and the content
lies inside it. -/
structure Inv (b : BlockBuffer cfg) : Prop where
  size_le : b.size ≤ b.capacity
  storage_length : b.storage.length = b.capacity
  data_eq_none_iff : b.data = none ↔ b.block = 0
  block_le : b.block ≤ cfg.maxBlocks
  maxblocks_le : b.maxblocks ≤ cfg.maxBlocks

theorem mul_requestedSize_lt {n : Nat} (h : n ≤ cfg.maxBlocks) :
    n * cfg.requestedSize < sizeModulus := by
  have hn : n < 2 ^ 32 := h.trans_lt cfg.maxBlocks_lt
  have hr := cfg.requestedSize_lt
  calc
    n * cfg.requestedSize < 2 ^ 32 * 2 ^ 32 :=
      Nat.mul_lt_mul_of_lt_of_le hn hr.le (by decide)
    _ = sizeModulus := by decide

namespace Inv

theorem size_lt {b : BlockBuffer cfg} (hb : b.Inv) : b.size < sizeModulus :=
  hb.size_le.trans_lt (mul_requestedSize_lt hb.block_le)

/-- Under the invariant the subtraction in `freespace` does not wrap. -/
theorem freespace_eq {b : BlockBuffer cfg} (hb : b.Inv) :
    b.freespace = b.capacity - b.size :=
  sizeSub_eq_sub hb.size_le (mul_requestedSize_lt hb.block_le)

theorem length_content {b : BlockBuffer cfg} (hb : b.Inv) : b.content.length = b.size :=
  Region.length_view (hb.storage_length ▸ hb.size_le)

end Inv

theorem inv_new : (new cfg).Inv where
  size_le := Nat.zero_le _
  storage_length := by simp [new, storage, capacity]
  data_eq_none_iff := by simp [new]
  block_le := Nat.zero_le _
  maxblocks_le := le_rfl

/-- In-bounds stores go to the storage, also when the pointer is null. -/
theorem storage_poke {b : BlockBuffer cfg} (hb : b.Inv) {pos : Nat} {cells : List UInt8}
    (hin : pos + cells.length ≤ b.capacity) :
    (b.poke pos cells).storage = Region.write b.storage pos cells := by
  cases hdata : b.data with
  | some region => simp [poke, storage, hdata]
  | none =>
      have hblock : b.block = 0 := hb.data_eq_none_iff.mp hdata
      have hcap : b.capacity = 0 := by simp [capacity, hblock]
      have hpos : pos = 0 := by omega
      have hcells : cells = [] := List.eq_nil_of_length_eq_zero (by omega)
      simp [poke, storage, hdata, hpos, hcells, Region.write]

/-- A store inside the storage, followed by a change of the size, keeps the
invariant. -/
theorem inv_poke {b : BlockBuffer cfg} (hb : b.Inv) {pos size : Nat} {cells : List UInt8}
    (hin : pos + cells.length ≤ b.capacity) (hsize : size ≤ b.capacity) :
    ({ b.poke pos cells with size := size } : BlockBuffer cfg).Inv where
  size_le := hsize
  storage_length := by
    have hstore := storage_poke hb hin
    have hlen := Region.length_write (hb.storage_length.symm ▸ hin)
    calc
      (b.poke pos cells).storage.length = b.storage.length := by rw [hstore, hlen]
      _ = b.capacity := hb.storage_length
  data_eq_none_iff := by simpa [poke] using hb.data_eq_none_iff
  block_le := hb.block_le
  maxblocks_le := hb.maxblocks_le

theorem inv_size {b : BlockBuffer cfg} (hb : b.Inv) {size : Nat} (hsize : size ≤ b.capacity) :
    ({ b with size := size } : BlockBuffer cfg).Inv where
  size_le := hsize
  storage_length := hb.storage_length
  data_eq_none_iff := hb.data_eq_none_iff
  block_le := hb.block_le
  maxblocks_le := hb.maxblocks_le

theorem content_poke {b : BlockBuffer cfg} (hb : b.Inv) {pos : Nat} {cells : List UInt8}
    (size : Nat) (hin : pos + cells.length ≤ b.capacity) :
    ({ b.poke pos cells with size := size } : BlockBuffer cfg).content =
      Region.view (Region.write b.storage pos cells) size := by
  show Region.view (b.poke pos cells).storage size = _
  rw [storage_poke hb hin]

theorem content_size {b : BlockBuffer cfg} {size : Nat} (hsize : size ≤ b.size) :
    ({ b with size := size } : BlockBuffer cfg).content = b.content.take size :=
  Region.view_view hsize

/-! ## Growth -/

/-- Rounding `missing` up to whole blocks fits under a block limit exactly when
the bytes fit under the byte limit. -/
theorem roundUp_le_iff (cfg : BlockConfig) (block missing limit : Nat) :
    (if missing % cfg.requestedSize > 0
      then block + missing / cfg.requestedSize + 1
      else block + missing / cfg.requestedSize) ≤ limit ↔
      block * cfg.requestedSize + missing ≤ limit * cfg.requestedSize := by
  have hpos := cfg.requestedSize_pos
  have hmod := Nat.mod_lt missing hpos
  have hdiv := Nat.div_add_mod missing cfg.requestedSize
  set q := missing / cfg.requestedSize
  set r := missing % cfg.requestedSize
  have hbytes : block * cfg.requestedSize + missing = (block + q) * cfg.requestedSize + r := by
    rw [← hdiv]
    ring
  rw [hbytes]
  by_cases hr : r > 0
  · rw [if_pos hr]
    constructor
    · intro hle
      have hmul := Nat.mul_le_mul_right cfg.requestedSize hle
      rw [Nat.add_mul (block + q) 1] at hmul
      omega
    · intro hle
      by_contra hgt
      have hmul := Nat.mul_le_mul_right cfg.requestedSize (show limit ≤ block + q by omega)
      omega
  · rw [if_neg hr, show r = 0 by omega, Nat.add_zero]
    exact (Nat.mul_le_mul_right_iff hpos).symm

/-- The condition under which a buffer can hold `total` bytes: it already does,
or the bytes are below the maximum and `malloc` delivers. -/
def Grants (malloc : Malloc) (b : BlockBuffer cfg) (total : Nat) : Prop :=
  total ≤ b.capacity ∨ (total ≤ b.maxsize ∧ malloc.isSome = true)

/-- `b'` is `b` after a successful growth to room for `total` bytes: it may own
more blocks, and nothing else differs. -/
structure Grown (b b' : BlockBuffer cfg) (total : Nat) : Prop where
  inv : b'.Inv
  content : b'.content = b.content
  size : b'.size = b.size
  maxblocks : b'.maxblocks = b.maxblocks
  block_le : b.block ≤ b'.block
  block_le_max : b'.block ≤ max b.block b.maxblocks
  room : total ≤ b'.capacity

theorem Grown.refl {b : BlockBuffer cfg} (hb : b.Inv) {total : Nat}
    (hroom : total ≤ b.capacity) : Grown b b total :=
  ⟨hb, rfl, rfl, rfl, le_rfl, le_max_left _ _, hroom⟩

/-- The content is copied to the front of more blocks. -/
theorem Grown.move {b : BlockBuffer cfg} (hb : b.Inv) {newblock total : Nat}
    {newdata : List UInt8} (hlen : newdata.length = newblock * cfg.requestedSize)
    (hblock : b.block < newblock) (hmax : newblock ≤ b.maxblocks)
    (hroom : total ≤ newblock * cfg.requestedSize) :
    Grown b { b with
      data := some (if b.block > 0 then Region.write newdata 0 b.content else newdata)
      block := newblock } total := by
  have hsize : b.size ≤ newblock * cfg.requestedSize :=
    hb.size_le.trans (Nat.mul_le_mul_right _ hblock.le)
  have hcontent := hb.length_content
  have hstore : ∀ region,
      region = (if b.block > 0 then Region.write newdata 0 b.content else newdata) →
        region.length = newblock * cfg.requestedSize ∧
          Region.view region b.size = b.content := by
    rintro region rfl
    split
    · constructor
      · rw [Region.length_write (by omega), hlen]
      · rw [← hcontent]
        have hfront : Region.view (Region.write newdata 0 b.content)
            (0 + b.content.length) = Region.view newdata 0 ++ b.content :=
          Region.view_write_end (Nat.zero_le _)
        simpa [Region.view_zero] using hfront
    · have hzero : b.size = 0 := by
        have hcap : b.capacity = 0 := by
          rw [capacity, show b.block = 0 by omega, Nat.zero_mul]
        have := hb.size_le
        omega
      refine ⟨hlen, ?_⟩
      rw [hzero, Region.view_zero, BlockBuffer.content, hzero, Region.view_zero]
  obtain ⟨hregion, hview⟩ := hstore _ rfl
  exact {
    inv := {
      size_le := hsize
      storage_length := hregion
      data_eq_none_iff := by simp; omega
      block_le := hmax.trans hb.maxblocks_le
      maxblocks_le := hb.maxblocks_le }
    content := hview
    size := rfl
    maxblocks := rfl
    block_le := hblock.le
    block_le_max := hmax.trans (le_max_right _ _)
    room := hroom }

/-- What `increaseCapacity` does to a buffer whose content lies inside its blocks and
whose `freespace` is exact: there is room already, or the room is not granted, or it
takes more blocks below the maximum. -/
theorem increaseCapacity_spec {b : BlockBuffer cfg} (hsize : b.size ≤ b.capacity)
    (hfree : b.freespace = b.capacity - b.size) (malloc : Malloc) (increaseSize : Nat) :
    (b.size + increaseSize ≤ b.capacity ∧ increaseCapacity malloc b increaseSize = (true, b)) ∨
    (¬ Grants malloc b (b.size + increaseSize) ∧
      increaseCapacity malloc b increaseSize = (false, b)) ∨
    (b.size + increaseSize ≤ b.maxsize ∧ malloc.isSome = true ∧
      ∃ newblock newdata, newdata.length = newblock * cfg.requestedSize ∧
        b.block < newblock ∧ newblock ≤ b.maxblocks ∧
        b.size + increaseSize ≤ newblock * cfg.requestedSize ∧
        increaseCapacity malloc b increaseSize = (true, { b with
          data := some (if b.block > 0 then Region.write newdata 0 b.content else newdata)
          block := newblock })) := by
  unfold increaseCapacity
  split
  · exact .inl ⟨by omega, rfl⟩
  split
  · exact .inl ⟨by omega, rfl⟩
  rename_i hpos hnofit
  -- from here on the call needs more blocks than the buffer owns
  have hneed : ¬ b.size + increaseSize ≤ b.capacity := by omega
  have hbytes : b.block * cfg.requestedSize + (increaseSize - b.freespace) =
      b.size + increaseSize := by
    show b.capacity + _ = _
    omega
  have hround := roundUp_le_iff cfg b.block (increaseSize - b.freespace)
  simp only [hbytes] at hround ⊢
  generalize hnew : (if (increaseSize - b.freespace) % cfg.requestedSize > 0
    then b.block + (increaseSize - b.freespace) / cfg.requestedSize + 1
    else b.block + (increaseSize - b.freespace) / cfg.requestedSize) = newblock at hround ⊢
  by_cases hlimit : newblock > b.maxblocks
  · rw [if_pos hlimit]
    refine .inr (.inl ⟨?_, rfl⟩)
    rintro (h | ⟨h, -⟩)
    · exact hneed h
    · exact absurd ((hround _).mpr h) (by omega)
  rw [if_neg hlimit]
  cases malloc with
  | none =>
      refine .inr (.inl ⟨?_, rfl⟩)
      rintro (h | ⟨-, h⟩)
      · exact hneed h
      · cases h
  | some cell =>
      have hmax : b.size + increaseSize ≤ b.maxsize := (hround _).mp (by omega)
      have hroom : b.size + increaseSize ≤ newblock * cfg.requestedSize :=
        (hround newblock).mp le_rfl
      have hblock : b.block < newblock := by
        by_contra hge
        have := Nat.mul_le_mul_right cfg.requestedSize (show newblock ≤ b.block by omega)
        exact hneed (hroom.trans this)
      exact .inr (.inr ⟨hmax, rfl, newblock, _, by simp [Nat.mul_comm], hblock,
        Nat.le_of_not_lt hlimit, hroom, rfl⟩)

/-- Everything `increaseCapacity` can do: it makes room and keeps the content,
or it fails, exactly when the room is not granted, and changes nothing. -/
theorem increaseCapacity_cases {b : BlockBuffer cfg} (hb : b.Inv) (malloc : Malloc)
    (increaseSize : Nat) :
    (Grants malloc b (b.size + increaseSize) ∧
      ∃ b', increaseCapacity malloc b increaseSize = (true, b') ∧
        Grown b b' (b.size + increaseSize)) ∨
    (¬ Grants malloc b (b.size + increaseSize) ∧
      increaseCapacity malloc b increaseSize = (false, b)) := by
  rcases increaseCapacity_spec hb.size_le hb.freespace_eq malloc increaseSize with
    ⟨hroom, heq⟩ | hrefused | ⟨hmax, hmalloc, newblock, newdata, hlen, hblock, hlimit, hroom, heq⟩
  · exact .inl ⟨.inl hroom, b, heq, .refl hb hroom⟩
  · exact .inr hrefused
  · exact .inl ⟨.inr ⟨hmax, hmalloc⟩, _, heq, .move hb hlen hblock hlimit hroom⟩

/-! ## The public operations -/

/-- `append` concatenates when the room is granted and otherwise does nothing. -/
theorem append_cases {b : BlockBuffer cfg} (hb : b.Inv) (malloc : Malloc)
    (app : List UInt8) :
    (Grants malloc b (b.size + app.length) ∧
      ∃ b', append malloc b app = (true, b') ∧ b'.Inv ∧ b'.content = b.content ++ app ∧
        b'.maxblocks = b.maxblocks ∧ b.block ≤ b'.block ∧
        b'.block ≤ max b.block b.maxblocks) ∨
    (¬ Grants malloc b (b.size + app.length) ∧ append malloc b app = (false, b)) := by
  unfold append
  split
  · rename_i hzero
    have happ : app = [] := List.eq_nil_of_length_eq_zero hzero
    refine .inl ⟨.inl (by have := hb.size_le; omega), b, rfl, hb, by simp [happ], rfl,
      le_rfl, le_max_left _ _⟩
  rcases increaseCapacity_cases hb malloc app.length with
    ⟨hgrant, b', heq, hgrown⟩ | ⟨hno, heq⟩
  · have hsize := hgrown.size
    have hroom : b'.size + app.length ≤ b'.capacity := hsize ▸ hgrown.room
    refine .inl ⟨hgrant, { b'.poke b'.size app with size := b'.size + app.length },
      by rw [heq], inv_poke hgrown.inv hroom hroom, ?_, hgrown.maxblocks, hgrown.block_le,
      hgrown.block_le_max⟩
    have hin : b'.size ≤ b'.storage.length := by
      rw [hgrown.inv.storage_length]
      exact hgrown.inv.size_le
    rw [content_poke hgrown.inv _ hroom, Region.view_write_end hin, ← hgrown.content]
    rfl
  · exact .inr ⟨hno, by rw [heq]⟩

/-- `resize` truncates, or pads when the room is granted, and otherwise does
nothing. -/
theorem resize_cases {b : BlockBuffer cfg} (hb : b.Inv) (malloc : Malloc) (n : Nat)
    (c : UInt8) :
    (Grants malloc b n ∧
      ∃ b', resize malloc b n c = (true, b') ∧ b'.Inv ∧
        b'.content = b.content.take n ++ List.replicate (n - b.size) c ∧
        b'.maxblocks = b.maxblocks ∧ b.block ≤ b'.block ∧
        b'.block ≤ max b.block b.maxblocks) ∨
    (¬ Grants malloc b n ∧ resize malloc b n c = (false, b)) := by
  have hlen := hb.length_content
  unfold resize
  split
  · rename_i hgt
    have htotal : b.size + (n - b.size) = n := by omega
    rcases increaseCapacity_cases hb malloc (n - b.size) with
      ⟨hgrant, b', heq, hgrown⟩ | ⟨hno, heq⟩
    · rw [htotal] at hgrant
      have hroom : n ≤ b'.capacity := htotal ▸ hgrown.room
      have hsize := hgrown.size
      have hin : b'.size + (List.replicate (n - b.size) c).length ≤ b'.capacity := by
        rw [List.length_replicate]
        omega
      refine .inl ⟨hgrant, { b'.poke b'.size (List.replicate (n - b.size) c) with size := n },
        by simp only [heq], inv_poke hgrown.inv hin hroom, ?_, hgrown.maxblocks,
        hgrown.block_le, hgrown.block_le_max⟩
      have hle : b'.size ≤ b'.storage.length := by
        rw [hgrown.inv.storage_length]
        exact hgrown.inv.size_le
      have hend : n = b'.size + (List.replicate (n - b.size) c).length := by
        rw [List.length_replicate]
        omega
      rw [content_poke hgrown.inv _ hin, List.take_of_length_le (by omega), ← hgrown.content]
      nth_rewrite 2 [hend]
      exact Region.view_write_end hle
    · rw [htotal] at hno
      exact .inr ⟨hno, by simp only [heq]⟩
  · rename_i hle
    have hn : n ≤ b.size := by omega
    have hcap : n ≤ b.capacity := hn.trans hb.size_le
    refine .inl ⟨.inl hcap, _, rfl, inv_size hb hcap, ?_, rfl, le_rfl, le_max_left _ _⟩
    rw [content_size hn, show n - b.size = 0 by omega]
    simp

/-- `reserve` never changes the content, and changes nothing when it fails. -/
theorem reserve_cases {b : BlockBuffer cfg} (hb : b.Inv) (malloc : Malloc) (n : Nat) :
    (∃ b', reserve malloc b n = (true, b') ∧ b'.Inv ∧ b'.content = b.content ∧
      b'.size = b.size ∧ b'.maxblocks = b.maxblocks ∧ b.block ≤ b'.block ∧
      b'.block ≤ max b.block b.maxblocks) ∨
    reserve malloc b n = (false, b) := by
  unfold reserve
  split
  · exact .inl ⟨b, rfl, hb, rfl, rfl, rfl, le_rfl, le_max_left _ _⟩
  rcases increaseCapacity_cases hb malloc (n - b.capacity) with
    ⟨-, b', heq, hgrown⟩ | ⟨-, heq⟩
  · exact .inl ⟨b', heq, hgrown.inv, hgrown.content, hgrown.size, hgrown.maxblocks,
      hgrown.block_le, hgrown.block_le_max⟩
  · exact .inr heq

theorem inv_free {b : BlockBuffer cfg} (hb : b.Inv) (hempty : b.size = 0) : b.free.Inv := by
  unfold free
  split
  · exact {
      size_le := by simp [hempty]
      storage_length := by simp [storage, capacity]
      data_eq_none_iff := by simp
      block_le := Nat.zero_le _
      maxblocks_le := hb.maxblocks_le }
  · exact hb

theorem content_free {b : BlockBuffer cfg} (hempty : b.size = 0) :
    b.free.content = [] := by
  have hfree : b.free.size = 0 := by
    unfold free
    split <;> simpa using hempty
  rw [content, hfree, Region.view_zero]

theorem content_eq_nil {b : BlockBuffer cfg} (hempty : b.size = 0) : b.content = [] := by
  rw [content, hempty, Region.view_zero]

theorem free_block_le (b : BlockBuffer cfg) : b.free.block ≤ b.block := by
  unfold free
  split <;> simp

theorem free_block (b : BlockBuffer cfg) : b.free.block = 0 := by
  unfold free
  split
  · rfl
  · omega

@[simp] theorem free_maxblocks (b : BlockBuffer cfg) : b.free.maxblocks = b.maxblocks := by
  unfold free
  split <;> rfl

theorem free_size (b : BlockBuffer cfg) : b.free.size = b.size := by
  unfold free
  split <;> rfl

/-- `erase` at the front takes bytes off the size, in any buffer. -/
theorem size_erase_front (b : BlockBuffer cfg) (n : Nat) (hold : Bool) :
    (erase b 0 n hold).size = b.size - n := by
  have hrelease : ∀ b : BlockBuffer cfg,
      (if b.empty && !hold then b.free else b).size = b.size := by
    intro b
    split
    · exact free_size b
    · rfl
  unfold erase
  simp only [Nat.sub_zero]
  split
  · rename_i hall
    rw [hrelease, Nat.sub_eq_zero_of_le hall]
  · rw [hrelease]

/-- In any buffer: `append` fails without an effect, or the size grows. -/
theorem append_size (malloc : Malloc) (b : BlockBuffer cfg) (app : List UInt8) :
    append malloc b app = (false, b) ∨
      ∃ b', append malloc b app = (true, b') ∧ b'.size = b.size + app.length := by
  have hgrow : ∀ n, increaseCapacity malloc b n = (false, b) ∨
      ∃ b', increaseCapacity malloc b n = (true, b') ∧ b'.size = b.size := by
    intro n
    unfold increaseCapacity
    split
    · exact .inr ⟨b, rfl, rfl⟩
    split
    · exact .inr ⟨b, rfl, rfl⟩
    dsimp only
    generalize (if (n - b.freespace) % cfg.requestedSize > 0 then
      b.block + (n - b.freespace) / cfg.requestedSize + 1
      else b.block + (n - b.freespace) / cfg.requestedSize) = newblock
    split
    · exact .inl rfl
    split
    · exact .inl rfl
    · exact .inr ⟨_, rfl, rfl⟩
  unfold append
  split
  · rename_i hzero
    exact .inr ⟨b, rfl, by rw [hzero, Nat.add_zero]⟩
  · rcases hgrow app.length with heq | ⟨b', heq, hsize⟩
    · rw [heq]
      exact .inl rfl
    · rw [heq]
      exact .inr ⟨_, rfl, by rw [← hsize]⟩

/-- The tail of `erase`: storage is released when the content became empty and
`hold` is not set.  The content does not change. -/
theorem erase_release {b : BlockBuffer cfg} (hb : b.Inv) (hold : Bool) :
    let b' := if b.empty && !hold then b.free else b
    b'.Inv ∧ b'.content = b.content ∧ b'.maxblocks = b.maxblocks ∧ b'.block ≤ b.block := by
  by_cases hrelease : (b.empty && !hold) = true
  · have hempty : b.size = 0 := by
      have := (Bool.and_eq_true _ _).mp hrelease
      simpa [empty] using this.1
    simp only [hrelease, if_true]
    exact ⟨inv_free hb hempty, (content_free hempty).trans (content_eq_nil hempty).symm,
      free_maxblocks b, free_block_le b⟩
  · simp only [hrelease]
    exact ⟨hb, rfl, rfl, le_rfl⟩

/-- `erase` removes `n` bytes at `pos`, clamped to the end. -/
theorem erase_spec {b : BlockBuffer cfg} (hb : b.Inv) {pos : Nat} (hpos : pos ≤ b.size)
    (n : Nat) (hold : Bool) :
    (erase b pos n hold).Inv ∧
      (erase b pos n hold).content = b.content.take pos ++ b.content.drop (pos + n) ∧
      (erase b pos n hold).maxblocks = b.maxblocks ∧
      (erase b pos n hold).block ≤ b.block := by
  have hlen := hb.length_content
  have hcap := hb.size_le
  have hstore := hb.storage_length
  unfold erase
  simp only
  split
  · rename_i hall
    obtain ⟨hinv, hcontent, hmax, hblock⟩ :=
      erase_release (inv_size hb (hpos.trans hcap)) hold
    refine ⟨hinv, ?_, hmax, hblock⟩
    rw [hcontent, content_size hpos, List.drop_eq_nil_of_le (by omega), List.append_nil]
  · rename_i hsome
    set tail := (b.storage.drop (pos + n)).take (b.size - pos - n)
    have htail : tail = b.content.drop (pos + n) := by
      simp only [tail, content, Region.view, List.drop_take]
      congr 1
      omega
    have htaillen : tail.length = b.size - (pos + n) := by
      rw [htail, List.length_drop, hlen]
    have hin : pos + tail.length ≤ b.capacity := by omega
    obtain ⟨hinv, hcontent, hmax, hblock⟩ :=
      erase_release (inv_poke hb hin (show b.size - n ≤ b.capacity by omega)) hold
    refine ⟨hinv, ?_, hmax, hblock⟩
    have hend : b.size - n = pos + tail.length := by omega
    rw [hcontent, content_poke hb _ hin, hend, Region.view_write_end (by omega), htail]
    congr 1
    exact Region.view_view hpos

/-- When it succeeds, `replace` puts `rep` at `pos`, or behind the content when
`pos` is not inside it.  It keeps the invariant also when it fails. -/
theorem replace_cases {b : BlockBuffer cfg} (hb : b.Inv) (malloc : Malloc) (pos : Nat)
    (rep : List UInt8) (hwrap : pos + rep.length < sizeModulus) :
    ∃ r b', replace malloc b pos rep = (r, b') ∧ b'.Inv ∧ b'.maxblocks = b.maxblocks ∧
      b'.block ≤ max b.block b.maxblocks ∧ b.block ≤ b'.block ∧
      (r = true → b'.content =
        if pos ≥ b.size then b.content ++ rep
        else b.content.take pos ++ rep ++ b.content.drop (pos + rep.length)) := by
  have hlen := hb.length_content
  have hcap := hb.size_le
  unfold replace
  rw [Nat.mod_eq_of_lt hwrap]
  split
  · rename_i hout
    rcases append_cases hb malloc rep with ⟨-, b', heq, hinv, hcontent, hmax, hge, hle⟩ | ⟨-, heq⟩
    · exact ⟨true, b', heq, hinv, hmax, hle, hge, fun _ => hcontent⟩
    · exact ⟨false, b, heq, hb, rfl, le_max_left _ _, le_rfl, nofun⟩
  rename_i hin
  split
  · rename_i hcross
    have hpos : pos ≤ b.size := by omega
    -- cutting the content first is safe even if the append then fails
    have hcut := inv_size hb (hpos.trans hcap)
    rcases append_cases hcut malloc rep with
      ⟨-, b', heq, hinv, hcontent, hmax, hge, hle⟩ | ⟨-, heq⟩
    · refine ⟨true, b', heq, hinv, hmax, hle, hge, fun _ => ?_⟩
      rw [hcontent, content_size hpos, List.drop_eq_nil_of_le (by omega), List.append_nil]
    · exact ⟨false, _, heq, hcut, rfl, le_max_left _ _, le_rfl, nofun⟩
  rename_i hinside
  split
  · have hroom : pos + rep.length ≤ b.capacity := by omega
    refine ⟨true, _, rfl, inv_poke hb hroom hcap, rfl, le_max_left _ _, le_rfl, fun _ => ?_⟩
    have hview := content_poke hb b.size hroom
    refine hview.trans ?_
    rw [Region.view_write_inside (by omega) (by rw [hb.storage_length]; exact hcap)]
    congr 2
    exact Region.view_view (by omega)
  · rename_i hnil
    have hrep : rep = [] := List.eq_nil_of_length_eq_zero (by omega)
    refine ⟨true, b, rfl, hb, rfl, le_max_left _ _, le_rfl, fun _ => ?_⟩
    simp [hrep]

/-- A replacement inside the content needs no memory and never fails. -/
theorem replace_inside {b : BlockBuffer cfg} (hb : b.Inv) (malloc : Malloc) {pos : Nat}
    {rep : List UInt8} (hin : pos + rep.length ≤ b.size) :
    ∃ b', replace malloc b pos rep = (true, b') ∧ b'.Inv ∧ b'.maxblocks = b.maxblocks ∧
      b'.content = b.content.take pos ++ rep ++ b.content.drop (pos + rep.length) := by
  have hlen := hb.length_content
  have hcap := hb.size_le
  obtain ⟨r, b', heq, hinv, hmax, -, -, hcontent⟩ :=
    replace_cases hb malloc pos rep (hin.trans_lt hb.size_lt)
  have hgranted : ∀ b₀ : BlockBuffer cfg, b₀.Inv → b₀.capacity = b.capacity →
      b₀.size + rep.length ≤ b.size → (append malloc b₀ rep).1 = true := by
    intro b₀ hb₀ hsame hroom
    rcases append_cases hb₀ malloc rep with ⟨-, _, happ, -⟩ | ⟨hno, -⟩
    · rw [happ]
    · exact absurd (.inl (by omega)) hno
  have hr : (replace malloc b pos rep).1 = true := by
    unfold replace
    split
    · exact hgranted b hb rfl (by omega)
    split
    · exact hgranted _ (inv_size hb (by omega)) rfl hin
    · split <;> rfl
  rw [heq] at hr
  refine ⟨b', heq.trans (by rw [show r = true from hr]), hinv, hmax, ?_⟩
  -- when nothing is replaced at the very end, the append has nothing to append
  rw [hcontent hr]
  split
  · have hnil : rep = [] := List.eq_nil_of_length_eq_zero (by omega)
    rw [hnil, List.take_of_length_le (by omega), List.drop_eq_nil_of_le (by simp; omega),
      List.append_nil, List.append_nil]
  · rfl

/-! ## The list model -/

/-- The operations of the class, with their arguments. -/
inductive Op where
  | append (app : List UInt8)
  | resize (n : Nat) (c : UInt8)
  | reserve (n : Nat)
  | erase (pos n : Nat) (hold : Bool)
  | replace (pos : Nat) (rep : List UInt8)

/-- Call the operation; `erase` returns nothing and counts as a success. -/
def Op.exec (malloc : Malloc) (b : BlockBuffer cfg) : Op → Bool × BlockBuffer cfg
  | .append app => BlockBuffer.append malloc b app
  | .resize n c => BlockBuffer.resize malloc b n c
  | .reserve n => BlockBuffer.reserve malloc b n
  | .erase pos n hold => (true, BlockBuffer.erase b pos n hold)
  | .replace pos rep => BlockBuffer.replace malloc b pos rep

/-- The arguments an operation accepts: `erase` asserts `pos <= size()`, and the
sum `pos + n` of `replace` must not wrap. -/
def Op.Allowed (b : BlockBuffer cfg) : Op → Prop
  | .erase pos _ _ => pos ≤ b.size
  | .replace pos rep => pos + rep.length < sizeModulus
  | _ => True

/-- What a successful operation does to a list of bytes. -/
def Op.apply (l : List UInt8) : Op → List UInt8
  | .append app => l ++ app
  | .resize n c => l.take n ++ List.replicate (n - l.length) c
  | .reserve _ => l
  | .erase pos n _ => l.take pos ++ l.drop (pos + n)
  | .replace pos rep =>
      if pos ≥ l.length then l ++ rep
      else l.take pos ++ rep ++ l.drop (pos + rep.length)

/-- The size an `append` or a `resize` asks for. -/
def Op.requestedTotal (l : List UInt8) : Op → Option Nat
  | .append app => some (l.length + app.length)
  | .resize n _ => some n
  | _ => none

/-- The buffers which a sequence of operations can produce from an empty buffer
with the default maximum, under any pattern of allocation failures. -/
inductive Reachable (cfg : BlockConfig) : BlockBuffer cfg → Prop
  | new : Reachable cfg (new cfg)
  | step {b : BlockBuffer cfg} (malloc : Malloc) (op : Op) :
      Reachable cfg b → op.Allowed b → Reachable cfg (op.exec malloc b).2

/-- One operation against the list model: the invariant and the limit persist,
success has the model's effect, and a failure other than that of `replace`
changes nothing. -/
structure Refines (malloc : Malloc) (b : BlockBuffer cfg) (op : Op) : Prop where
  inv : (op.exec malloc b).2.Inv
  maxblocks : (op.exec malloc b).2.maxblocks = b.maxblocks
  block_le : (op.exec malloc b).2.block ≤ b.maxblocks
  content : (op.exec malloc b).1 = true → (op.exec malloc b).2.content = op.apply b.content
  granted : ∀ total, op.requestedTotal b.content = some total →
    ((op.exec malloc b).1 = true ↔ Grants malloc b total)
  failed : (op.exec malloc b).1 = false →
    (∃ pos rep, op = .replace pos rep) ∨ (op.exec malloc b).2 = b

theorem refines_of_success {malloc : Malloc} {b b' : BlockBuffer cfg} {op : Op}
    (heq : op.exec malloc b = (true, b')) (hinv : b'.Inv) (hmax : b'.maxblocks = b.maxblocks)
    (hblock : b'.block ≤ b.maxblocks) (hcontent : b'.content = op.apply b.content)
    (hgrants : ∀ total, op.requestedTotal b.content = some total → Grants malloc b total) :
    Refines malloc b op := by
  constructor <;> rw [heq]
  · exact hinv
  · exact hmax
  · exact hblock
  · exact fun _ => hcontent
  · exact fun total htotal => iff_of_true rfl (hgrants total htotal)
  · intro hfalse
    cases hfalse

theorem refines_of_failure {malloc : Malloc} {b : BlockBuffer cfg} {op : Op}
    (heq : op.exec malloc b = (false, b)) (hb : b.Inv) (hmax : b.block ≤ b.maxblocks)
    (hno : ∀ total, op.requestedTotal b.content = some total → ¬ Grants malloc b total) :
    Refines malloc b op := by
  constructor <;> rw [heq]
  · exact hb
  · exact hmax
  · intro htrue
    cases htrue
  · exact fun total htotal => iff_of_false Bool.false_ne_true (hno total htotal)
  · exact fun _ => .inr rfl

theorem exec_refines {b : BlockBuffer cfg} (hb : b.Inv) (hmax : b.block ≤ b.maxblocks)
    (malloc : Malloc) (op : Op) (hop : op.Allowed b) : Refines malloc b op := by
  have hlen := hb.length_content
  -- below the default maximum growth never passes `maxblocks`
  have hmaxle : max b.block b.maxblocks = b.maxblocks := max_eq_right hmax
  cases op with
  | append app =>
      rcases append_cases hb malloc app with
        ⟨hgrant, b', heq, hinv, hcontent, hm, -, hle⟩ | ⟨hno, heq⟩
      · refine refines_of_success heq hinv hm (hmaxle ▸ hle) hcontent ?_
        rintro total ⟨⟩
        simpa [hlen] using hgrant
      · refine refines_of_failure heq hb hmax ?_
        rintro total ⟨⟩
        simpa [hlen] using hno
  | resize n c =>
      rcases resize_cases hb malloc n c with
        ⟨hgrant, b', heq, hinv, hcontent, hm, -, hle⟩ | ⟨hno, heq⟩
      · refine refines_of_success heq hinv hm (hmaxle ▸ hle) ?_ ?_
        · rw [hcontent, Op.apply, hlen]
        · rintro total ⟨⟩
          exact hgrant
      · refine refines_of_failure heq hb hmax ?_
        rintro total ⟨⟩
        exact hno
  | reserve n =>
      rcases reserve_cases hb malloc n with ⟨b', heq, hinv, hcontent, -, hm, -, hle⟩ | heq
      · exact refines_of_success heq hinv hm (hmaxle ▸ hle) hcontent nofun
      · exact refines_of_failure heq hb hmax nofun
  | erase pos n hold =>
      obtain ⟨hinv, hcontent, hm, hle⟩ := erase_spec hb hop n hold
      exact refines_of_success rfl hinv hm (hle.trans hmax) hcontent nofun
  | replace pos rep =>
      -- a `replace` which fails may have cut the content
      obtain ⟨r, b', heq, hinv, hm, hle, -, hcontent⟩ := replace_cases hb malloc pos rep hop
      have heq : Op.exec malloc b (.replace pos rep) = (r, b') := heq
      refine ⟨?_, ?_, ?_, ?_, nofun, fun _ => .inl ⟨pos, rep, rfl⟩⟩ <;> rw [heq]
      · exact hinv
      · exact hm
      · exact hmaxle ▸ hle
      · intro hr
        rw [hcontent hr, Op.apply, hlen]

/-- The run lemma: every reachable buffer satisfies the invariant, below the
default maximum. -/
theorem Reachable.inv {b : BlockBuffer cfg} (h : Reachable cfg b) :
    b.Inv ∧ b.maxblocks = cfg.maxBlocks ∧ b.block ≤ cfg.maxBlocks := by
  induction h with
  | new => exact ⟨inv_new, rfl, Nat.zero_le _⟩
  | step malloc op _ hop ih =>
      obtain ⟨hinv, hmax, hblock⟩ := ih
      have hrefines := exec_refines hinv (hmax ▸ hblock) malloc op hop
      exact ⟨hrefines.inv, hrefines.maxblocks.trans hmax, hmax ▸ hrefines.block_le⟩

/-- **`BlockBuffer` refines a bounded list of bytes.**  In every reachable
buffer the size is at most the capacity, which is a whole number of blocks below
the maximum, and the storage pointer is null exactly when no block is owned.
From there `append` and `resize` succeed exactly when the resulting size is
below the maximum and the allocation, if one is needed, succeeds; a success has
the effect of the list model; `reserve` never changes the content; and a failed
`append`, `resize` or `reserve` leaves content, size and capacity alone. -/
theorem blockBuffer_refines_byteList {b : BlockBuffer cfg} (h : Reachable cfg b)
    (malloc : Malloc) (op : Op) (hop : op.Allowed b) :
    (b.size = b.content.length ∧ b.size ≤ b.capacity ∧
      b.capacity = b.block * cfg.requestedSize ∧ b.capacity ≤ b.maxsize ∧
      (b.data = none ↔ b.block = 0)) ∧
    (∀ total, op.requestedTotal b.content = some total →
      ((op.exec malloc b).1 = true ↔
        total ≤ b.maxsize ∧ (b.capacity < total → malloc.isSome = true))) ∧
    ((op.exec malloc b).1 = true → (op.exec malloc b).2.content = op.apply b.content) ∧
    (∀ n, op = .reserve n → (op.exec malloc b).2.content = b.content) ∧
    ((op.exec malloc b).1 = false → (∀ pos rep, op ≠ .replace pos rep) →
      (op.exec malloc b).2.content = b.content ∧ (op.exec malloc b).2.size = b.size ∧
        (op.exec malloc b).2.capacity = b.capacity) := by
  obtain ⟨hinv, hmax, hblock⟩ := h.inv
  have hle : b.block ≤ b.maxblocks := hmax ▸ hblock
  have hcap : b.capacity ≤ b.maxsize := Nat.mul_le_mul_right _ hle
  have hrefines := exec_refines hinv hle malloc op hop
  refine ⟨⟨hinv.length_content.symm, hinv.size_le, rfl, hcap, hinv.data_eq_none_iff⟩,
    ?_, hrefines.content, ?_, ?_⟩
  · intro total htotal
    rw [hrefines.granted total htotal]
    constructor
    · rintro (hfits | ⟨hbelow, halloc⟩)
      · exact ⟨hfits.trans hcap, fun hlt => absurd hfits (by omega)⟩
      · exact ⟨hbelow, fun _ => halloc⟩
    · rintro ⟨hbelow, halloc⟩
      rcases Nat.lt_or_ge b.capacity total with hlt | hge
      · exact .inr ⟨hbelow, halloc hlt⟩
      · exact .inl hge
  · rintro n rfl
    cases hr : (Op.exec malloc b (.reserve n)).1 with
    | true => exact hrefines.content hr
    | false =>
        rcases hrefines.failed hr with ⟨_, _, hreplace⟩ | hsame
        · cases hreplace
        · rw [hsame]
  · intro hr hnot
    rcases hrefines.failed hr with ⟨pos, rep, hreplace⟩ | hsame
    · exact absurd hreplace (hnot pos rep)
    · rw [hsame]
      exact ⟨rfl, rfl, rfl⟩

/-- Two four-byte blocks. -/
def smallConfig : BlockConfig where
  requestedSize := 4
  maxBlocks := 2
  requestedSize_pos := by decide
  requestedSize_lt := by decide
  maxBlocks_pos := by decide
  maxBlocks_lt := by decide

/-- A buffer holding three bytes in one block refuses six more and stays as it is. -/
theorem blockBuffer_refines_byteList_smallConfig :
    let b := (Op.exec (some fun _ => 7) (new smallConfig) (.append [1, 2, 3])).2
    let after := Op.exec (some fun _ => 9) b (.append [4, 5, 6, 7, 8, 9])
    after.1 = false ∧ after.2.content = [1, 2, 3] ∧ after.2.capacity = 4 := by
  have h := blockBuffer_refines_byteList
    (Reachable.step (some fun _ => 7) (.append [1, 2, 3]) (@Reachable.new smallConfig) trivial)
    (some fun _ => 9) (.append [4, 5, 6, 7, 8, 9]) trivial
  have hfail := h.2.2.2.2 (by decide) (by simp)
  exact ⟨by decide, hfail.1.trans (by decide), hfail.2.2.trans (by decide)⟩

end BlockBuffer
end Net
end Deps
