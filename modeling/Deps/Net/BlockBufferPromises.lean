import Deps.Net.BlockBufferRefinement

/-!
# What `replace` and `reserve` promise

A failed growth is meant to leave the data alone, but `replace` cuts the content
before it appends.  `reserve` asks `increase_capacity` for the bytes which are
missing in the capacity, and `increase_capacity` counts the free space as well.
-/

namespace Deps
namespace Net
namespace BlockBuffer

variable {cfg : BlockConfig}

/-- The buffers which a program can get hold of; the maximum may be changed at any
time. -/
inductive Attained (cfg : BlockConfig) : BlockBuffer cfg → Prop
  | new : Attained cfg (new cfg)
  | step {b : BlockBuffer cfg} (malloc : Malloc) (op : Op) (hb : Attained cfg b)
      (hop : op.Allowed b) : Attained cfg (op.exec malloc b).2
  | setMaxBlocks {b : BlockBuffer cfg} (maxBlocks : Nat) (hb : Attained cfg b) :
      Attained cfg (b.setMaxBlocks maxBlocks)

theorem inv_setMaxBlocks {b : BlockBuffer cfg} (hb : b.Inv) (maxBlocks : Nat) :
    (b.setMaxBlocks maxBlocks).Inv where
  size_le := hb.size_le
  storage_length := hb.storage_length
  data_eq_none_iff := hb.data_eq_none_iff
  block_le := hb.block_le
  maxblocks_le := by
    rw [maxblocks_setMaxBlocks]
    exact Nat.min_le_right _ _

/-- Every operation keeps the invariant, whatever the maximum. -/
theorem Op.exec_inv {b : BlockBuffer cfg} (hb : b.Inv) (malloc : Malloc) {op : Op}
    (hop : op.Allowed b) : (op.exec malloc b).2.Inv := by
  cases op with
  | append app =>
      rcases append_cases hb malloc app with ⟨-, b', heq, hinv, -⟩ | ⟨-, heq⟩
      · simpa only [exec, heq] using hinv
      · simpa only [exec, heq] using hb
  | resize n c =>
      rcases resize_cases hb malloc n c with ⟨-, b', heq, hinv, -⟩ | ⟨-, heq⟩
      · simpa only [exec, heq] using hinv
      · simpa only [exec, heq] using hb
  | reserve n =>
      rcases reserve_cases hb malloc n with ⟨b', heq, hinv, -⟩ | heq
      · simpa only [exec, heq] using hinv
      · simpa only [exec, heq] using hb
  | erase pos n hold => exact (erase_spec hb hop n hold).1
  | replace pos rep =>
      obtain ⟨r, b', heq, hinv, -⟩ := replace_cases hb malloc pos rep hop
      simpa only [exec, heq] using hinv

theorem Attained.inv {b : BlockBuffer cfg} (h : Attained cfg b) : b.Inv := by
  induction h with
  | new => exact inv_new
  | step malloc op _ hop ih => exact Op.exec_inv ih malloc hop
  | setMaxBlocks maxBlocks _ ih => exact inv_setMaxBlocks ih maxBlocks

/-! ## `replace` -/

/-- When `replace` fails, size and content are what they were. -/
def ReplaceKeeps (malloc : Malloc) (b : BlockBuffer cfg) (pos : Nat) (rep : List UInt8) : Prop :=
  (replace malloc b pos rep).1 = false →
    (replace malloc b pos rep).2.size = b.size ∧
      (replace malloc b pos rep).2.content = b.content

/-- A replacement which begins inside the content fails if and only if there is no
room up to its end; then the content behind `pos` is gone. -/
theorem replace_inside_cases {b : BlockBuffer cfg} (hb : b.Inv) (malloc : Malloc) {pos : Nat}
    {rep : List UInt8} (hwrap : pos + rep.length < sizeModulus) (hin : pos < b.size) :
    (Grants malloc b (pos + rep.length) ∧ (replace malloc b pos rep).1 = true) ∨
      (¬Grants malloc b (pos + rep.length) ∧
        replace malloc b pos rep = (false, { b with size := pos })) := by
  have hcap := hb.size_le
  have hcut : ({ b with size := pos } : BlockBuffer cfg).Inv := inv_size hb (by omega)
  unfold replace
  rw [Nat.mod_eq_of_lt hwrap, if_neg (by omega)]
  by_cases hcross : pos + rep.length ≥ b.size
  · rw [if_pos hcross]
    rcases append_cases hcut malloc rep with ⟨hgrants, b', heq, -⟩ | ⟨hno, heq⟩
    · exact .inl ⟨hgrants, by rw [heq]⟩
    · exact .inr ⟨hno, heq⟩
  · rw [if_neg hcross]
    have hgrants : Grants malloc b (pos + rep.length) := .inl (by omega)
    refine .inl ⟨hgrants, ?_⟩
    split <;> rfl

/-- A failing `replace` leaves the buffer as it was if and only if it does not have
to begin inside the content and go on behind what the buffer can hold. -/
theorem replace_keeps_iff {b : BlockBuffer cfg} (h : Attained cfg b) (malloc : Malloc) (pos : Nat)
    (rep : List UInt8) (hwrap : pos + rep.length < sizeModulus) :
    ReplaceKeeps malloc b pos rep ↔
      b.size ≤ pos ∨ pos + rep.length ≤ b.capacity ∨
        (pos + rep.length ≤ b.maxsize ∧ malloc.isSome = true) := by
  have hb := h.inv
  show _ ↔ b.size ≤ pos ∨ Grants malloc b (pos + rep.length)
  by_cases hin : pos < b.size
  · rcases replace_inside_cases hb malloc hwrap hin with ⟨hgrants, hr⟩ | ⟨hno, heq⟩
    · refine iff_of_true (fun hfalse => ?_) (.inr hgrants)
      rw [hr] at hfalse
      cases hfalse
    · refine iff_of_false (fun hkeeps => ?_) fun hor => hor.elim (by omega) hno
      have hsize := (hkeeps (by rw [heq])).1
      rw [heq] at hsize
      -- the size has become `pos`
      exact hin.ne hsize
  · refine iff_of_true (fun hfalse => ?_) (.inl (by omega))
    have hout : replace malloc b pos rep = append malloc b rep := by
      rw [replace, if_pos (by omega)]
    rw [hout] at hfalse ⊢
    rcases append_cases hb malloc rep with ⟨-, b', heq, -⟩ | ⟨-, heq⟩
    · rw [heq] at hfalse
      cases hfalse
    · rw [heq]
      exact ⟨rfl, rfl⟩

/-- Three bytes in a buffer for eight. -/
theorem attained_three :
    Attained smallConfig (Op.exec (some fun _ => 7) (new smallConfig) (.append [1, 2, 3])).2 :=
  .step (some fun _ => 7) (.append [1, 2, 3]) .new trivial

/-- Eight bytes at the offset 1 do not fit, and two of the three bytes are lost. -/
theorem replace_cuts :
    ∃ b, Attained smallConfig b ∧
      ¬ReplaceKeeps (some fun _ => 9) b 1 [4, 5, 6, 7, 8, 9, 10, 11] := by
  refine ⟨_, attained_three, fun hkeeps => ?_⟩
  have hsize := (hkeeps (by decide)).1
  exact absurd hsize (by decide)

/-- The theorem, when the replacement just fits. -/
theorem replace_keeps_iff_fitting :
    ReplaceKeeps (some fun _ => 9)
        (Op.exec (some fun _ => 7) (new smallConfig) (.append [1, 2, 3])).2 1 [4, 5, 6, 7] ↔
      3 ≤ 1 ∨ 1 + 4 ≤ 4 ∨ (1 + 4 ≤ 8 ∧ (some fun _ : Nat => (9 : UInt8)).isSome = true) :=
  replace_keeps_iff attained_three (some fun _ => 9) 1 [4, 5, 6, 7] (by decide)

/-! ## `reserve` -/

/-- The number of blocks for so many bytes. -/
def blocksFor (cfg : BlockConfig) (n : Nat) : Nat :=
  if n % cfg.requestedSize > 0 then n / cfg.requestedSize + 1 else n / cfg.requestedSize

theorem blocksFor_le_iff (cfg : BlockConfig) (n limit : Nat) :
    blocksFor cfg n ≤ limit ↔ n ≤ limit * cfg.requestedSize := by
  have h := roundUp_le_iff cfg 0 n limit
  simp only [Nat.zero_add, Nat.zero_mul] at h
  exact h

theorem blocksFor_mono (cfg : BlockConfig) {m n : Nat} (hle : m ≤ n) :
    blocksFor cfg m ≤ blocksFor cfg n :=
  (blocksFor_le_iff cfg m _).mpr (hle.trans ((blocksFor_le_iff cfg n _).mp le_rfl))

/-- A growth adds the blocks for the bytes which do not fit. -/
theorem block_increaseCapacity {malloc : Malloc} {b b' : BlockBuffer cfg} {increaseSize : Nat}
    (h : increaseCapacity malloc b increaseSize = (true, b')) :
    b'.block = b.block + blocksFor cfg (increaseSize - b.freespace) := by
  have hnone : blocksFor cfg 0 = 0 := by simp [blocksFor]
  unfold increaseCapacity at h
  split at h
  · rename_i hzero
    cases h
    rw [hzero, Nat.zero_sub, hnone, Nat.add_zero]
  split at h
  · rename_i hfits
    cases h
    rw [Nat.sub_eq_zero_of_le hfits, hnone, Nat.add_zero]
  have hround : (if (increaseSize - b.freespace) % cfg.requestedSize > 0
      then b.block + (increaseSize - b.freespace) / cfg.requestedSize + 1
      else b.block + (increaseSize - b.freespace) / cfg.requestedSize) =
        b.block + blocksFor cfg (increaseSize - b.freespace) := by
    unfold blocksFor
    split <;> rfl
  simp only [hround] at h
  split at h
  · cases h
  split at h
  · cases h
  · cases h
    rfl

/-- `reserve` does what it promises: after a success there is room for `n` bytes
without another allocation, and it fails only for want of memory or beyond the
maximum. -/
structure ReserveDelivers (malloc : Malloc) (b : BlockBuffer cfg) (n : Nat) : Prop where
  capacity : (reserve malloc b n).1 = true → n ≤ (reserve malloc b n).2.capacity
  growth : (reserve malloc b n).1 = true → ∀ app, b.size + app.length ≤ n →
    (append none (reserve malloc b n).2 app).1 = true
  refusal : (reserve malloc b n).1 = false → b.maxsize < n ∨ malloc = none

/-- Room for `n` bytes is all that is promised of a success. -/
theorem reserveDelivers_of_capacity {b b' : BlockBuffer cfg} {malloc : Malloc} {n : Nat}
    (heq : reserve malloc b n = (true, b')) (hb' : b'.Inv) (hsize : b'.size = b.size)
    (hroom : n ≤ b'.capacity) : ReserveDelivers malloc b n where
  capacity _ := by rwa [heq]
  growth _ app happ := by
    rw [heq]
    rcases append_cases hb' none app with ⟨-, _, happend, -⟩ | ⟨hno, -⟩
    · rw [happend]
    · exact absurd (.inl (by omega)) hno
  refusal hfalse := by
    rw [heq] at hfalse
    cases hfalse

/-- `reserve(n)` delivers if and only if there is room already, or it is refused, or
the free space does not spare a block of those which are missing. -/
theorem reserve_delivers_iff {b : BlockBuffer cfg} (h : Attained cfg b) (malloc : Malloc)
    (n : Nat) :
    ReserveDelivers malloc b n ↔
      n ≤ b.capacity ∨
        (b.freespace < n - b.capacity ∧
          (b.maxsize < b.size + (n - b.capacity) ∨ malloc = none)) ∨
        blocksFor cfg (n - b.capacity - b.freespace) = blocksFor cfg (n - b.capacity) := by
  have hb := h.inv
  have hcap := hb.size_le
  have hfree := hb.freespace_eq
  by_cases hroom : n ≤ b.capacity
  · have heq : reserve malloc b n = (true, b) := by rw [reserve, if_pos hroom]
    exact iff_of_true (reserveDelivers_of_capacity heq hb rfl hroom) (.inl hroom)
  have hgrow : reserve malloc b n = increaseCapacity malloc b (n - b.capacity) := by
    rw [reserve, if_neg hroom]
  rcases increaseCapacity_cases hb malloc (n - b.capacity) with
    ⟨hgrants, b', heq, hgrown⟩ | ⟨hno, heq⟩
  · -- the capacity afterwards, in blocks
    have hblock := block_increaseCapacity heq
    have henough : n ≤ b'.capacity ↔
        blocksFor cfg (n - b.capacity) ≤ blocksFor cfg (n - b.capacity - b.freespace) := by
      rw [blocksFor_le_iff, capacity, hblock, Nat.add_mul]
      show n ≤ b.capacity + _ ↔ _
      omega
    have hblocks : blocksFor cfg (n - b.capacity - b.freespace) = blocksFor cfg (n - b.capacity) ↔
        n ≤ b'.capacity := by
      rw [henough]
      exact ⟨fun hblocks => hblocks.ge, fun hle => le_antisymm (blocksFor_mono cfg (by omega)) hle⟩
    rw [hblocks]
    constructor
    · intro hdelivers
      have hcapacity := hdelivers.capacity (by rw [hgrow, heq])
      rw [hgrow, heq] at hcapacity
      exact .inr (.inr hcapacity)
    · rintro (hle | ⟨hlt, hrefused⟩ | hle)
      · exact absurd hle hroom
      · -- a growth which is refused is not granted
        rcases hgrants with hfits | ⟨hmax, hsome⟩
        · omega
        · rcases hrefused with hover | rfl
          · omega
          · cases hsome
      · exact reserveDelivers_of_capacity (hgrow.trans heq) hgrown.inv hgrown.size hle
  · have hover : ¬b.size + (n - b.capacity) ≤ b.capacity := fun hle => hno (.inl hle)
    have hrefused : b.maxsize < b.size + (n - b.capacity) ∨ malloc = none := by
      cases malloc with
      | none => exact .inr rfl
      | some cell => exact .inl (by by_contra hle; exact hno (.inr ⟨by omega, rfl⟩))
    refine iff_of_true ⟨fun htrue => ?_, fun htrue => ?_, fun _ => ?_⟩
      (.inr (.inl ⟨by omega, hrefused⟩))
    · rw [hgrow, heq] at htrue
      cases htrue
    · rw [hgrow, heq] at htrue
      cases htrue
    · exact hrefused.imp_left fun hlt => by omega

/-- One byte in a block of four: `reserve(6)` finds three bytes free, which are as
many as are missing, and does nothing. -/
theorem reserve_short :
    ∃ b, Attained smallConfig b ∧ ¬ReserveDelivers (some fun _ => 9) b 6 := by
  refine ⟨_, .step (some fun _ => 7) (.append [1]) .new trivial, fun hdelivers => ?_⟩
  exact absurd (hdelivers.capacity (by decide)) (by decide)

/-- The theorem, for a full block. -/
theorem reserve_delivers_iff_full :
    let b := (Op.exec (some fun _ => 7) (new smallConfig) (.append [1, 2, 3, 4])).2
    ReserveDelivers (some fun _ => 9) b 6 ↔
      6 ≤ b.capacity ∨
        (b.freespace < 6 - b.capacity ∧
          (b.maxsize < b.size + (6 - b.capacity) ∨ (some fun _ : Nat => (9 : UInt8)) = none)) ∨
        blocksFor smallConfig (6 - b.capacity - b.freespace) =
          blocksFor smallConfig (6 - b.capacity) :=
  reserve_delivers_iff (.step (some fun _ => 7) (.append [1, 2, 3, 4]) .new trivial)
    (some fun _ => 9) 6

end BlockBuffer
end Net
end Deps
