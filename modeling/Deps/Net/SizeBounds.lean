import Deps.Net.BlockAccounting

/-!
# Sizes under a changing maximum

`set_max_blocks` keeps the maximum below `MaxBlocks` and does not look at the content,
and `increase_capacity` does not look at the maximum where the owned blocks have room.
Either can leave a size above `maxsize()`, and then `maxfree()` wraps; nothing else can.
The capacity is never below the size, whatever the maximum.
-/

namespace Deps
namespace Net
namespace BlockBuffer

open Runs

variable {cfg : BlockConfig}

/-- A call of one of the operations, or of `set_max_blocks`. -/
inductive Call where
  | exec (malloc : Malloc) (op : Op)
  | setMaxBlocks (maxBlocks : Nat)

/-- Any call at any time, inside the assertion of `erase`. -/
inductive CallStep : BlockBuffer cfg → Call → BlockBuffer cfg → Prop
  | exec {b : BlockBuffer cfg} (malloc op) (hassert : Asserted b op) :
      CallStep b (.exec malloc op) (op.exec malloc b).2
  | setMaxBlocks {b : BlockBuffer cfg} (maxBlocks) :
      CallStep b (.setMaxBlocks maxBlocks) (b.setMaxBlocks maxBlocks)

/-! ## What should hold -/

/-- The content lies inside the owned blocks, and neither `freespace` nor
`increase_capacity` subtracts below zero. -/
structure CapacityFits (b : BlockBuffer cfg) : Prop where
  size_le_capacity : b.size ≤ b.capacity
  freespace : (b.freespace : Int) = b.capacity - b.size
  /-- `increase_size -= free` -/
  missing : ∀ increaseSize < sizeModulus, b.freespace < increaseSize →
    (sizeSub increaseSize b.freespace : Int) = increaseSize - b.freespace
  /-- `newblock - m_block` -/
  newblock : ∀ malloc increaseSize b', increaseCapacity malloc b increaseSize = (true, b') →
    (sizeSub b'.block b.block : Int) = b'.block - b.block

/-- The content is also below the maximum, and `maxfree` does not wrap either. -/
structure SizesFit (b : BlockBuffer cfg) : Prop extends CapacityFits b where
  size_le_maxsize : b.size ≤ b.maxsize
  maxfree : (b.maxfree : Int) = b.maxsize - b.size

/-- The size which an operation is to leave behind. -/
def Op.target (b : BlockBuffer cfg) : Op → Nat
  | .append app => b.size + app.length
  | .resize n _ => n
  | .reserve _ => b.size
  | .erase pos n _ => if n ≥ b.size - pos then pos else b.size - n
  | .replace pos rep =>
      if pos ≥ b.size then b.size + rep.length
      else if (pos + rep.length) % sizeModulus ≥ b.size then pos + rep.length
      else b.size

/-- A new maximum has room for the content, and an operation does not use owned blocks
to go above the maximum. -/
def KeepsMaximum (b : BlockBuffer cfg) : Call → Prop
  | .exec _ op => op.target b ≤ b.maxsize ∨ b.capacity < op.target b
  | .setMaxBlocks maxBlocks => b.size ≤ min maxBlocks cfg.maxBlocks * cfg.requestedSize

/-! ## The capacity -/

/-- What is known of the sizes of every buffer. -/
structure Bounded (b : BlockBuffer cfg) : Prop where
  size_le : b.size ≤ b.capacity
  block_le : b.block ≤ cfg.maxBlocks
  maxblocks_le : b.maxblocks ≤ cfg.maxBlocks

theorem bounded_new : (new cfg).Bounded := ⟨Nat.zero_le _, Nat.zero_le _, le_rfl⟩

theorem sizeSub_exact {m n : Nat} (hle : n ≤ m) (hm : m < sizeModulus) :
    (sizeSub m n : Int) = m - n := by
  rw [sizeSub_eq_sub hle hm]
  exact Int.ofNat_sub hle

variable {b b' : BlockBuffer cfg} {malloc : Malloc}

namespace Bounded

theorem freespace_eq (hb : b.Bounded) : b.freespace = b.capacity - b.size :=
  sizeSub_eq_sub hb.size_le (mul_requestedSize_lt hb.block_le)

/-- A growth takes blocks or leaves them, and fails exactly when the room is not granted. -/
theorem increaseCapacity (hb : b.Bounded) (malloc : Malloc) (increaseSize : Nat) :
    (Grants malloc b (b.size + increaseSize) ∧
      ∃ b', BlockBuffer.increaseCapacity malloc b increaseSize = (true, b') ∧ b'.Bounded ∧
        b'.size = b.size ∧ b'.maxblocks = b.maxblocks ∧ b.block ≤ b'.block ∧
        b.size + increaseSize ≤ b'.capacity) ∨
    (¬ Grants malloc b (b.size + increaseSize) ∧
      BlockBuffer.increaseCapacity malloc b increaseSize = (false, b)) := by
  rcases increaseCapacity_spec hb.size_le hb.freespace_eq malloc increaseSize with
    ⟨hroom, heq⟩ | hrefused | ⟨hmax, hmalloc, newblock, newdata, -, hblock, hlimit, hroom, heq⟩
  · exact .inl ⟨.inl hroom, b, heq, hb, rfl, rfl, le_rfl, hroom⟩
  · exact .inr hrefused
  · have hsize : b.size ≤ newblock * cfg.requestedSize := by omega
    have hblock' : newblock ≤ cfg.maxBlocks := hlimit.trans hb.maxblocks_le
    exact .inl ⟨.inr ⟨hmax, hmalloc⟩, _, heq, ⟨hsize, hblock', hb.maxblocks_le⟩, rfl, rfl,
      hblock.le, hroom⟩

theorem capacityFits (hb : b.Bounded) : b.CapacityFits where
  size_le_capacity := hb.size_le
  freespace := sizeSub_exact hb.size_le (mul_requestedSize_lt hb.block_le)
  missing increaseSize hlt hmissing := sizeSub_exact hmissing.le hlt
  newblock malloc increaseSize b' heq := by
    have hmodulus : sizeModulus = 2 ^ 64 := rfl
    have hcfg := cfg.maxBlocks_lt
    rcases hb.increaseCapacity malloc increaseSize with
      ⟨-, b'', heq', hb', -, -, hblock, -⟩ | ⟨-, heq'⟩
    · cases heq.symm.trans heq'
      have hblock' := hb'.block_le
      exact sizeSub_exact hblock (by omega)
    · cases heq.symm.trans heq'

/-- The maximum is all that can go wrong. -/
theorem sizesFit_iff (hb : b.Bounded) : b.SizesFit ↔ b.size ≤ b.maxsize := by
  refine ⟨fun h => h.size_le_maxsize, fun hmax => ⟨hb.capacityFits, hmax, ?_⟩⟩
  exact sizeSub_exact hmax (mul_requestedSize_lt hb.maxblocks_le)

end Bounded

/-! ## One call -/

/-- `b'` has the size `target` if `b` grants it, and else no more than before; the maximum
stays. -/
structure Resized (malloc : Malloc) (b b' : BlockBuffer cfg) (target : Nat) : Prop where
  bounded : b'.Bounded
  maxblocks : b'.maxblocks = b.maxblocks
  size : (Grants malloc b target ∧ b'.size = target) ∨
    (¬ Grants malloc b target ∧ b'.size ≤ b.size)

namespace Resized

variable {target : Nat}

/-- A size inside the capacity is granted. -/
theorem of_size (hb' : b'.Bounded) (hmax : b'.maxblocks = b.maxblocks)
    (hsize : b'.size ≤ b.capacity) : Resized malloc b b' b'.size :=
  ⟨hb', hmax, .inl ⟨.inl hsize, rfl⟩⟩

/-- Growth to a size above the capacity is checked against the maximum. -/
theorem size_le_maxsize_iff (h : Resized malloc b b' target) (hmax : b.size ≤ b.maxsize) :
    b'.size ≤ b'.maxsize ↔ target ≤ b.maxsize ∨ b.capacity < target := by
  have hsame : b'.maxsize = b.maxsize := congrArg (· * cfg.requestedSize) h.maxblocks
  rw [hsame]
  rcases h.size with ⟨hfits | ⟨hbelow, -⟩, hsize⟩ | ⟨hno, hsize⟩
  · omega
  · omega
  · have hover : ¬ target ≤ b.capacity := fun hle => hno (.inl hle)
    omega

end Resized

/-- Only the numbers count. -/
theorem Bounded.of_size (hb : b.Bounded) (hblock : b'.block = b.block)
    (hmax : b'.maxblocks = b.maxblocks) (hsize : b'.size ≤ b.capacity) : b'.Bounded := by
  refine ⟨?_, hblock ▸ hb.block_le, hmax ▸ hb.maxblocks_le⟩
  rw [capacity, hblock]
  exact hsize

theorem resized_append (hb : b.Bounded) (app : List UInt8) :
    Resized malloc b (append malloc b app).2 (b.size + app.length) := by
  unfold append
  split
  · rename_i hzero
    rw [hzero, Nat.add_zero]
    exact .of_size hb rfl hb.size_le
  rcases hb.increaseCapacity malloc app.length with
    ⟨hgrants, b', heq, hb', hsize, hmax, -, hroom⟩ | ⟨hno, heq⟩
  · rw [heq, ← hsize]
    rw [← hsize] at hgrants hroom
    exact ⟨hb'.of_size rfl rfl hroom, hmax, .inl ⟨hgrants, rfl⟩⟩
  · rw [heq]
    exact ⟨hb, rfl, .inr ⟨hno, le_rfl⟩⟩

theorem resized_resize (hb : b.Bounded) (n : Nat) (c : UInt8) :
    Resized malloc b (resize malloc b n c).2 n := by
  unfold resize
  split
  · rename_i hgt
    have htotal : b.size + (n - b.size) = n := by omega
    rcases hb.increaseCapacity malloc (n - b.size) with
      ⟨hgrants, b', heq, hb', -, hmax, -, hroom⟩ | ⟨hno, heq⟩
    · rw [htotal] at hgrants hroom
      simp only [heq]
      exact ⟨hb'.of_size rfl rfl hroom, hmax, .inl ⟨hgrants, rfl⟩⟩
    · rw [htotal] at hno
      simp only [heq]
      exact ⟨hb, rfl, .inr ⟨hno, le_rfl⟩⟩
  · have hcap := hb.size_le
    have hn : n ≤ b.capacity := by omega
    exact .of_size (hb.of_size rfl rfl hn) rfl hn

theorem resized_reserve (hb : b.Bounded) (n : Nat) :
    Resized malloc b (reserve malloc b n).2 b.size := by
  unfold reserve
  split
  · exact .of_size hb rfl hb.size_le
  rcases hb.increaseCapacity malloc (n - b.capacity) with
    ⟨-, b', heq, hb', hsize, hmax, -⟩ | ⟨-, heq⟩
  · rw [heq]
    exact ⟨hb', hmax, .inl ⟨.inl hb.size_le, hsize⟩⟩
  · rw [heq]
    exact .of_size hb rfl hb.size_le

/-- The blocks are given back only when nothing is left in them. -/
theorem resized_release (b : BlockBuffer cfg) {c : BlockBuffer cfg} (hc : c.Bounded)
    (hmax : c.maxblocks = b.maxblocks) (hsame : c.capacity = b.capacity) (hold : Bool) :
    Resized malloc b (if c.empty && !hold then c.free else c) c.size := by
  split
  · rename_i hrelease
    have hempty : c.size = 0 := by
      have hand := (Bool.and_eq_true _ _).mp hrelease
      simpa [empty] using hand.1
    rw [← free_size c]
    have hzero : c.free.size = 0 := (free_size c).trans hempty
    refine .of_size ⟨?_, ?_, ?_⟩ ((free_maxblocks c).trans hmax) ?_
    · exact hzero ▸ Nat.zero_le _
    · exact (free_block c).symm ▸ Nat.zero_le _
    · exact (free_maxblocks c).symm ▸ hc.maxblocks_le
    · exact hzero ▸ Nat.zero_le _
  · exact .of_size hc hmax (hsame ▸ hc.size_le)

theorem resized_erase (hb : b.Bounded) {pos : Nat} (hpos : pos ≤ b.size) (n : Nat) (hold : Bool) :
    Resized malloc b (erase b pos n hold) ((Op.erase pos n hold).target b) := by
  have hcap := hb.size_le
  unfold erase Op.target
  simp only
  split
  · have hcut : ({ b with size := pos } : BlockBuffer cfg).Bounded :=
      hb.of_size rfl rfl (hpos.trans hcap)
    exact resized_release b hcut rfl rfl hold
  · let tail := (b.storage.drop (pos + n)).take (b.size - pos - n)
    have hcut : ({ b.poke pos tail with size := b.size - n } : BlockBuffer cfg).Bounded :=
      hb.of_size rfl rfl ((Nat.sub_le _ _).trans hcap)
    exact resized_release b hcut rfl rfl hold

theorem resized_replace (hb : b.Bounded) (pos : Nat) (rep : List UInt8) :
    Resized malloc b (replace malloc b pos rep).2 ((Op.replace pos rep).target b) := by
  have hcap := hb.size_le
  unfold replace Op.target
  simp only
  split
  · exact resized_append hb rep
  split
  · -- what a failing append leaves of the content is shorter
    have hcut : ({ b with size := pos } : BlockBuffer cfg).Bounded :=
      hb.of_size rfl rfl (show pos ≤ b.capacity by omega)
    obtain ⟨hbounded, hmax, hsize⟩ : Resized malloc { b with size := pos } _ _ :=
      resized_append hcut rep
    refine ⟨hbounded, hmax, hsize.imp id fun h => ⟨h.1, h.2.trans ?_⟩⟩
    show pos ≤ b.size
    omega
  split
  · exact Resized.of_size (hb.of_size rfl rfl hcap : (b.poke pos rep).Bounded) rfl hcap
  · exact .of_size hb rfl hcap

theorem resized_exec (hb : b.Bounded) {op : Op} (hassert : Asserted b op) :
    Resized malloc b (op.exec malloc b).2 (op.target b) := by
  cases op with
  | append app => exact resized_append hb app
  | resize n c => exact resized_resize hb n c
  | reserve n => exact resized_reserve hb n
  | erase pos n hold => exact resized_erase hb hassert n hold
  | replace pos rep => exact resized_replace hb pos rep

/-- No call breaks the bounds. -/
theorem CallStep.bounded {call : Call} (hb : b.Bounded) (h : CallStep b call b') :
    b'.Bounded := by
  cases h with
  | exec malloc op hassert => exact (resized_exec hb hassert).bounded
  | setMaxBlocks maxBlocks =>
      refine ⟨hb.size_le, hb.block_le, ?_⟩
      rw [maxblocks_setMaxBlocks]
      exact Nat.min_le_right _ _

/-- A call leaves the size below the maximum exactly if it keeps to the condition. -/
theorem CallStep.sizesFit_iff {call : Call} (hb : b.Bounded) (hfit : b.SizesFit)
    (h : CallStep b call b') : b'.SizesFit ↔ KeepsMaximum b call := by
  rw [(h.bounded hb).sizesFit_iff]
  cases h with
  | exec malloc op hassert =>
      exact (resized_exec hb hassert).size_le_maxsize_iff hfit.size_le_maxsize
  | setMaxBlocks maxBlocks =>
      rw [maxsize, maxblocks_setMaxBlocks]
      rfl

/-! ## Runs -/

/-- In every run of calls the size stays within the capacity and the free space does not
wrap; the size stays within the maximum too, and `maxfree` does not wrap, if and only if
every new maximum has room for the content and no operation fills owned blocks above the
maximum. -/
theorem sizes_fit_iff {past : List (BlockBuffer cfg × Call)}
    (hrun : Run CallStep (new cfg) past b) :
    b.CapacityFits ∧ ((∀ e ∈ past, e.1.SizesFit) ∧ b.SizesFit ↔ Meets KeepsMaximum past) := by
  have hkeep : ∀ (s : BlockBuffer cfg) call s', s.Bounded → CallStep s call s' → s'.Bounded :=
    fun _ _ _ hs hstep => hstep.bounded hs
  have hinit : (new cfg).SizesFit := bounded_new.sizesFit_iff.mpr (Nat.zero_le _)
  refine ⟨(hrun.inv bounded_new hkeep).capacityFits, ?_⟩
  exact hrun.forall_iff_meets Bounded SizesFit bounded_new hinit hkeep
    fun _ _ _ hs hfit hstep => hstep.sizesFit_iff hs hfit

/-- Five bytes in two blocks of four, and a maximum of one block. -/
theorem maxfree_wraps :
    ∃ past, ∃ b : BlockBuffer smallConfig, Run CallStep (new smallConfig) past b ∧
      b.size = 5 ∧ b.maxsize = 4 ∧ b.maxfree = 2 ^ 64 - 1 ∧ ¬ b.SizesFit := by
  have happend : CallStep (new smallConfig) _ _ :=
    .exec (some fun _ => 7) (.append [1, 2, 3, 4, 5]) trivial
  refine ⟨_, _, (Run.start.snoc happend).snoc (.setMaxBlocks 1), by decide, by decide, by decide,
    fun hfit => ?_⟩
  exact absurd hfit.size_le_maxsize (by decide)

/-- The theorem, for three bytes and a maximum of one block. -/
theorem sizes_fit_iff_lowered :
    let b := (Op.exec (some fun _ => 7) (new smallConfig) (.append [1, 2, 3])).2
    (b.setMaxBlocks 1).CapacityFits ∧ (b.setMaxBlocks 1).SizesFit := by
  intro b
  have happend : CallStep (new smallConfig) _ _ :=
    .exec (some fun _ => 7) (.append [1, 2, 3]) trivial
  obtain ⟨hcapacity, hiff⟩ := sizes_fit_iff ((Run.start.snoc happend).snoc (.setMaxBlocks 1))
  refine ⟨hcapacity, (hiff.mpr ?_).2⟩
  rw [meets_snoc, List.nil_append, ← List.nil_append [_], meets_snoc]
  exact ⟨⟨meets_nil, by unfold KeepsMaximum; decide⟩, by unfold KeepsMaximum; decide⟩

/-! ## A condition on the maximum alone -/

/-- No new maximum is below the owned blocks. -/
def KeepsBlocks (b : BlockBuffer cfg) (call : Call) : Prop :=
  ∀ maxBlocks, call = .setMaxBlocks maxBlocks → b.block ≤ min maxBlocks cfg.maxBlocks

/-- An operation takes no blocks above the maximum. -/
theorem block_le_maxblocks_exec (hb : b.block ≤ b.maxblocks) (op : Op) :
    (op.exec malloc b).2.block ≤ (op.exec malloc b).2.maxblocks := by
  let t : Totals := ⟨0, 0⟩
  have hchanges : Counted.Changes malloc b t (Counted.exec malloc b t op).2 :=
    Counted.changes_exec op
  obtain ⟨hchange, hmax⟩ := hchanges
  rw [← Counted.exec_eq (t := t) op]
  show (Counted.exec malloc b t op).2.1.block ≤ (Counted.exec malloc b t op).2.1.maxblocks
  rw [hmax]
  generalize (Counted.exec malloc b t op).2.1.block = block,
    (Counted.exec malloc b t op).2.2 = totals at hchange
  cases hchange with
  | same => exact hb
  | grow _ hle _ => exact hle
  | release => exact Nat.zero_le _

/-- While the maximum is not set below the owned blocks, and so in every run which leaves
it alone, all sizes fit. -/
theorem sizesFit_of_keepsBlocks {past : List (BlockBuffer cfg × Call)}
    (hrun : Run CallStep (new cfg) past b) (hmeets : Meets KeepsBlocks past) : b.SizesFit := by
  let Inv : BlockBuffer cfg → Prop := fun b => b.Bounded ∧ b.block ≤ b.maxblocks
  have hkeep : ∀ s call s', Inv s → KeepsBlocks s call → CallStep s call s' → Inv s' := by
    rintro s call s' ⟨hs, hblock⟩ hkeeps hstep
    refine ⟨hstep.bounded hs, ?_⟩
    cases hstep with
    | exec malloc op hassert => exact block_le_maxblocks_exec hblock op
    | setMaxBlocks maxBlocks =>
        rw [maxblocks_setMaxBlocks]
        exact hkeeps maxBlocks rfl
  obtain ⟨hb, hblock⟩ : Inv b := hrun.inv_of_meets ⟨bounded_new, Nat.zero_le _⟩ hkeep hmeets
  exact hb.sizesFit_iff.mpr (hb.size_le.trans (Nat.mul_le_mul_right _ hblock))

end BlockBuffer
end Net
end Deps
