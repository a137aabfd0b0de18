import Deps.Lib.Runs
import Deps.Net.BlockBufferRefinement

/-!
# Block accounting

`s_current_total_blocks` and `s_peak_total_blocks` of `net/blockbuffer.h`, which all
buffers of one instantiation share.  The operations of `BlockBuffer` are given again with
these counters; `Counted.exec_eq` says that nothing else differs.  `BlockChange` is what
any of them does to a buffer's blocks and to the counters.
-/

namespace Deps
namespace Net

open Runs BlockBuffer

/-- The two static members. -/
structure Totals where
  current : Nat
  peak : Nat

namespace Totals

/-- `s_current_total_blocks += newblock - m_block`, and the new peak. -/
def grow (t : Totals) (block newblock : Nat) : Totals :=
  let current := (t.current + sizeSub newblock block) % sizeModulus
  { current, peak := if current > t.peak then current else t.peak }

/-- `s_current_total_blocks -= m_block` -/
def shrink (t : Totals) (block : Nat) : Totals :=
  { t with current := sizeSub t.current block }

end Totals

namespace Counted

variable {cfg : BlockConfig}

def free (b : BlockBuffer cfg) (t : Totals) : BlockBuffer cfg × Totals :=
  if b.block > 0 then ({ b with data := none, block := 0 }, t.shrink b.block) else (b, t)

def increaseCapacity (malloc : Malloc) (b : BlockBuffer cfg) (increaseSize : Nat) (t : Totals) :
    Bool × BlockBuffer cfg × Totals :=
  if increaseSize = 0 then (true, b, t)
  else if b.freespace ≥ increaseSize then (true, b, t)
  else
    let missing := increaseSize - b.freespace
    let newblock := b.block + missing / cfg.requestedSize
    let newblock := if missing % cfg.requestedSize > 0 then newblock + 1 else newblock
    if newblock > b.maxblocks then (false, b, t)
    else
      match cfg.orderedMalloc malloc newblock with
      | none => (false, b, t)
      | some newdata =>
          let newdata :=
            if b.block > 0 then Region.write newdata 0 b.content else newdata
          (true, { b with data := some newdata, block := newblock }, t.grow b.block newblock)

def append (malloc : Malloc) (b : BlockBuffer cfg) (app : List UInt8) (t : Totals) :
    Bool × BlockBuffer cfg × Totals :=
  if app.length = 0 then (true, b, t)
  else
    match increaseCapacity malloc b app.length t with
    | (true, b, t) => (true, { b.poke b.size app with size := b.size + app.length }, t)
    | (false, b, t) => (false, b, t)

def reserve (malloc : Malloc) (b : BlockBuffer cfg) (n : Nat) (t : Totals) :
    Bool × BlockBuffer cfg × Totals :=
  if n ≤ b.capacity then (true, b, t)
  else increaseCapacity malloc b (n - b.capacity) t

def resize (malloc : Malloc) (b : BlockBuffer cfg) (n : Nat) (c : UInt8) (t : Totals) :
    Bool × BlockBuffer cfg × Totals :=
  if n > b.size then
    let len := n - b.size
    match increaseCapacity malloc b len t with
    | (true, b, t) => (true, { b.poke b.size (List.replicate len c) with size := n }, t)
    | (false, b, t) => (false, b, t)
  else (true, { b with size := n }, t)

def replace (malloc : Malloc) (b : BlockBuffer cfg) (pos : Nat) (rep : List UInt8) (t : Totals) :
    Bool × BlockBuffer cfg × Totals :=
  if pos ≥ b.size then append malloc b rep t
  else if (pos + rep.length) % sizeModulus ≥ b.size then
    append malloc { b with size := pos } rep t
  else if rep.length > 0 then (true, b.poke pos rep, t)
  else (true, b, t)

def erase (b : BlockBuffer cfg) (pos n : Nat) (hold : Bool) (t : Totals) :
    BlockBuffer cfg × Totals :=
  let m := b.size - pos
  let b :=
    if n ≥ m then { b with size := pos }
    else
      let tail := (b.storage.drop (pos + n)).take (m - n)
      { b.poke pos tail with size := b.size - n }
  if b.empty && !hold then free b t else (b, t)

def exec (malloc : Malloc) (b : BlockBuffer cfg) (t : Totals) :
    Op → Bool × BlockBuffer cfg × Totals
  | .append app => append malloc b app t
  | .resize n c => resize malloc b n c t
  | .reserve n => reserve malloc b n t
  | .erase pos n hold => (true, erase b pos n hold t)
  | .replace pos rep => replace malloc b pos rep t

/-! ## Without the counters -/

variable {malloc : Malloc} {b : BlockBuffer cfg} {t : Totals}

/-- The result of an operation without its counters. -/
def uncounted (r : Bool × BlockBuffer cfg × Totals) : Bool × BlockBuffer cfg := (r.1, r.2.1)

theorem free_eq : (free b t).1 = b.free := by
  unfold free BlockBuffer.free
  split <;> rfl

theorem increaseCapacity_eq (n : Nat) :
    uncounted (increaseCapacity malloc b n t) = BlockBuffer.increaseCapacity malloc b n := by
  unfold increaseCapacity BlockBuffer.increaseCapacity
  split
  · rfl
  split
  · rfl
  dsimp only
  generalize (if (n - b.freespace) % cfg.requestedSize > 0 then
    b.block + (n - b.freespace) / cfg.requestedSize + 1
    else b.block + (n - b.freespace) / cfg.requestedSize) = newblock
  split
  · rfl
  · cases cfg.orderedMalloc malloc newblock <;> rfl

theorem append_eq (app : List UInt8) :
    uncounted (append malloc b app t) = BlockBuffer.append malloc b app := by
  have hgrow : uncounted (increaseCapacity malloc b app.length t) =
      BlockBuffer.increaseCapacity malloc b app.length := increaseCapacity_eq app.length
  unfold append BlockBuffer.append
  rw [← hgrow]
  split
  · rfl
  · rcases increaseCapacity malloc b app.length t with ⟨_ | _, b', t'⟩ <;> rfl

theorem exec_eq (op : Op) : uncounted (exec malloc b t op) = op.exec malloc b := by
  cases op with
  | append app => exact append_eq app
  | resize n c =>
      have hgrow : uncounted (increaseCapacity malloc b (n - b.size) t) =
          BlockBuffer.increaseCapacity malloc b (n - b.size) := increaseCapacity_eq (n - b.size)
      show uncounted (resize malloc b n c t) = BlockBuffer.resize malloc b n c
      unfold resize BlockBuffer.resize
      dsimp only
      rw [← hgrow]
      split
      · rcases increaseCapacity malloc b (n - b.size) t with ⟨_ | _, b', t'⟩ <;> rfl
      · rfl
  | reserve n =>
      show uncounted (reserve malloc b n t) = BlockBuffer.reserve malloc b n
      unfold reserve BlockBuffer.reserve
      split
      · rfl
      · exact increaseCapacity_eq _
  | erase pos n hold =>
      show (true, (erase b pos n hold t).1) = (true, BlockBuffer.erase b pos n hold)
      unfold erase BlockBuffer.erase
      dsimp only
      generalize (if n ≥ b.size - pos then { b with size := pos } else _ : BlockBuffer cfg) = b'
      split
      · rw [free_eq]
      · rfl
  | replace pos rep =>
      show uncounted (replace malloc b pos rep t) = BlockBuffer.replace malloc b pos rep
      unfold replace BlockBuffer.replace
      split
      · exact append_eq rep
      split
      · exact append_eq rep
      split <;> rfl

end Counted

/-! ## What an operation does to the blocks -/

/-- The blocks of a buffer and the counters after an operation of a buffer which owns
`block` blocks. -/
inductive BlockChange (malloc : Malloc) (maxblocks block : Nat) (t : Totals) : Nat → Totals → Prop
  | same : BlockChange malloc maxblocks block t block t
  | grow {newblock : Nat} (hlt : block < newblock) (hmax : newblock ≤ maxblocks)
      (hmalloc : malloc.isSome = true) :
      BlockChange malloc maxblocks block t newblock (t.grow block newblock)
  | release (hpos : 0 < block) : BlockChange malloc maxblocks block t 0 (t.shrink block)

namespace Counted

variable {cfg : BlockConfig} {malloc : Malloc}

/-- The blocks change in one of three ways, and the maximum does not. -/
def Changes (malloc : Malloc) (b : BlockBuffer cfg) (t : Totals) (r : BlockBuffer cfg × Totals) :
    Prop :=
  BlockChange malloc b.maxblocks b.block t r.1.block r.2 ∧ r.1.maxblocks = b.maxblocks

variable {b : BlockBuffer cfg} {t : Totals}

theorem changes_same {b' : BlockBuffer cfg} (hblock : b'.block = b.block)
    (hmax : b'.maxblocks = b.maxblocks) : Changes malloc b t (b', t) := by
  refine ⟨?_, hmax⟩
  show BlockChange malloc b.maxblocks b.block t b'.block t
  rw [hblock]
  exact .same

theorem changes_free (b' : BlockBuffer cfg) (hblock : b'.block = b.block)
    (hmax : b'.maxblocks = b.maxblocks) : Changes malloc b t (free b' t) := by
  unfold free
  split
  · next hpos =>
    rw [hblock] at hpos ⊢
    exact ⟨.release hpos, hmax⟩
  · exact changes_same hblock hmax

/-- The number of new blocks is above the old one. -/
theorem changes_increaseCapacity (n : Nat) :
    Changes malloc b t (increaseCapacity malloc b n t).2 := by
  have hsame : Changes malloc b t (b, t) := changes_same rfl rfl
  have hpos := cfg.requestedSize_pos
  unfold increaseCapacity
  split
  · exact hsame
  split
  · exact hsame
  · next hsome hmissing =>
    have hmore : b.block < (if (n - b.freespace) % cfg.requestedSize > 0 then
        b.block + (n - b.freespace) / cfg.requestedSize + 1
        else b.block + (n - b.freespace) / cfg.requestedSize) := by
      split
      · exact Nat.lt_succ_of_le (Nat.le_add_right _ _)
      · next hwhole =>
        have hdvd := Nat.dvd_of_mod_eq_zero (Nat.eq_zero_of_not_pos hwhole)
        have hdiv := Nat.div_pos (Nat.le_of_dvd (by omega) hdvd) hpos
        omega
    dsimp only
    generalize (if (n - b.freespace) % cfg.requestedSize > 0 then
      b.block + (n - b.freespace) / cfg.requestedSize + 1
      else b.block + (n - b.freespace) / cfg.requestedSize) = newblock at hmore ⊢
    split
    · exact hsame
    · next hmax =>
      cases malloc with
      | none => exact hsame
      | some cell => exact ⟨.grow hmore (Nat.le_of_not_gt hmax) rfl, rfl⟩

theorem changes_append (app : List UInt8) :
    Changes malloc b t (append malloc b app t).2 := by
  unfold append
  split
  · exact changes_same rfl rfl
  · have hgrow : Changes malloc b t (increaseCapacity malloc b app.length t).2 :=
      changes_increaseCapacity app.length
    generalize increaseCapacity malloc b app.length t = r at hgrow ⊢
    rcases r with ⟨_ | _, b', t'⟩
    · exact hgrow
    · exact hgrow

theorem changes_erase (pos n : Nat) (hold : Bool) :
    Changes malloc b t (erase b pos n hold t) := by
  unfold erase
  dsimp only
  have hcut : ∀ b' : BlockBuffer cfg, b'.block = b.block → b'.maxblocks = b.maxblocks →
      Changes malloc b t (if b'.empty && !hold then free b' t else (b', t)) := by
    intro b' hblock hmax
    split
    · exact changes_free b' hblock hmax
    · exact changes_same hblock hmax
  apply hcut
  · split <;> rfl
  · split <;> rfl

theorem changes_exec (op : Op) : Changes malloc b t (exec malloc b t op).2 := by
  cases op with
  | append app => exact changes_append app
  | resize n c =>
      show Changes malloc b t (resize malloc b n c t).2
      unfold resize
      split
      · have hgrow : Changes malloc b t (increaseCapacity malloc b (n - b.size) t).2 :=
          changes_increaseCapacity (n - b.size)
        dsimp only
        generalize increaseCapacity malloc b (n - b.size) t = r at hgrow ⊢
        rcases r with ⟨_ | _, b', t'⟩
        · exact hgrow
        · exact hgrow
      · exact changes_same rfl rfl
  | reserve n =>
      show Changes malloc b t (reserve malloc b n t).2
      unfold reserve
      split
      · exact changes_same rfl rfl
      · exact changes_increaseCapacity _
  | erase pos n hold => exact changes_erase pos n hold
  | replace pos rep =>
      show Changes malloc b t (replace malloc b pos rep t).2
      unfold replace
      split
      · exact changes_append rep
      split
      · exact changes_append (b := { b with size := pos }) rep
      split
      · exact changes_same rfl rfl
      · exact changes_same rfl rfl

end Counted

/-- The counters follow, when the blocks of the other buffers are `rest`. -/
theorem BlockChange.exact {malloc : Malloc} {maxblocks block block' rest : Nat} {t t' : Totals}
    (h : BlockChange malloc maxblocks block t block' t') (hcurrent : t.current = rest + block)
    (hpeak : t.current ≤ t.peak) (hblock : block < 2 ^ 32) (hmax : maxblocks < 2 ^ 32)
    (hrest : rest + block < sizeModulus) (hrest' : rest + block' < sizeModulus) :
    t'.current = rest + block' ∧ t'.peak = max t.peak t'.current := by
  have hmodulus : sizeModulus = 2 ^ 64 := rfl
  cases h with
  | same => exact ⟨hcurrent, (max_eq_left hpeak).symm⟩
  | grow hlt hle =>
      have hsum : (t.grow block block').current = rest + block' := by
        show (t.current + sizeSub block' block) % sizeModulus = rest + block'
        rw [sizeSub_eq_sub (by omega) (by omega), hcurrent, Nat.mod_eq_of_lt] <;> omega
      refine ⟨hsum, ?_⟩
      show (if (t.grow block block').current > t.peak then (t.grow block block').current
        else t.peak) = max t.peak (t.grow block block').current
      split <;> omega
  | release hpos =>
      have hleft : (t.shrink block).current = rest + 0 := by
        show sizeSub t.current block = rest + 0
        rw [sizeSub_eq_sub (by omega) (by omega), hcurrent]
        omega
      refine ⟨hleft, ?_⟩
      show t.peak = max t.peak (t.shrink block).current
      omega

/-! ## Populations -/

/-- The live buffers of one instantiation, and their counters. -/
structure Population (cfg : BlockConfig) where
  live : List (BlockBuffer cfg)
  totals : Totals

namespace Population

variable {cfg : BlockConfig}

def start : Population cfg := ⟨[], ⟨0, 0⟩⟩

/-- What `s_current_total_blocks` should be. -/
def blocks (p : Population cfg) : Nat := (p.live.map BlockBuffer.block).sum

/-- The bytes which the live buffers have from `malloc`. -/
def held (p : Population cfg) : Nat := (p.live.map BlockBuffer.capacity).sum

end Population

/-- A step of one of the buffers, or its construction or destruction. -/
inductive PopulationAct
  | construct
  | exec (malloc : Malloc) (op : Op)
  | setMaxBlocks (maxBlocks : Nat)
  | destroy

/-- The assertion of `erase`. -/
def Asserted {cfg : BlockConfig} (b : BlockBuffer cfg) : Op → Prop
  | .erase pos _ _ => pos ≤ b.size
  | _ => True

/-- Any buffer may take a step at any time.  What `malloc` returns does not overlap with
what it has returned before, so that all of it fits the address space. -/
inductive PopulationStep {cfg : BlockConfig} :
    Population cfg → PopulationAct → Population cfg → Prop
  | construct {before after t} : PopulationStep ⟨before ++ after, t⟩ .construct
      ⟨before ++ BlockBuffer.new cfg :: after, t⟩
  | exec {before b after t} (malloc op b' t') (hassert : Asserted b op)
      (hexec : (Counted.exec malloc b t op).2 = (b', t'))
      (hfits : malloc.isSome = true → Population.held ⟨before ++ b' :: after, t'⟩ < sizeModulus) :
      PopulationStep ⟨before ++ b :: after, t⟩ (.exec malloc op) ⟨before ++ b' :: after, t'⟩
  | setMaxBlocks {before b after t} (maxBlocks) :
      PopulationStep ⟨before ++ b :: after, t⟩ (.setMaxBlocks maxBlocks)
        ⟨before ++ b.setMaxBlocks maxBlocks :: after, t⟩
  | destroy {before b after t} : PopulationStep ⟨before ++ b :: after, t⟩ .destroy
      ⟨before ++ after, (Counted.free b t).2⟩

namespace Population

variable {cfg : BlockConfig} {p p' : Population cfg}

theorem blocks_append_cons (before : List (BlockBuffer cfg)) (b : BlockBuffer cfg)
    (after : List (BlockBuffer cfg)) (t t' : Totals) :
    blocks ⟨before ++ b :: after, t⟩ = blocks ⟨before ++ after, t'⟩ + b.block := by
  simp only [blocks, List.map_append, List.map_cons, List.sum_append, List.sum_cons]
  omega

theorem blocks_le_held (p : Population cfg) : p.blocks ≤ p.held := by
  apply List.sum_le_sum
  intro b _
  exact Nat.le_mul_of_pos_right _ cfg.requestedSize_pos

/-- The counters are exact, and no buffer has more blocks than the template allows. -/
structure Exact (p : Population cfg) : Prop where
  current : p.totals.current = p.blocks
  peak : p.totals.current ≤ p.totals.peak
  blocks_lt : p.blocks < sizeModulus
  bounded : ∀ b ∈ p.live, b.block ≤ cfg.maxBlocks ∧ b.maxblocks ≤ cfg.maxBlocks

theorem exact_start : (start : Population cfg).Exact where
  current := rfl
  peak := le_rfl
  blocks_lt := Nat.two_pow_pos 64
  bounded := List.forall_mem_nil _

variable {before after live' : List (BlockBuffer cfg)} {b b' : BlockBuffer cfg} {t t' : Totals}

/-- The other buffers of an exact population. -/
theorem Exact.others (hp : Exact ⟨before ++ b :: after, t⟩) {c : BlockBuffer cfg}
    (hc : c ∈ before ++ after) : c.block ≤ cfg.maxBlocks ∧ c.maxblocks ≤ cfg.maxBlocks := by
  apply hp.bounded
  simp only [List.mem_append, List.mem_cons] at hc ⊢
  tauto

theorem bounded_append_cons (hothers : ∀ c ∈ before ++ after,
      c.block ≤ cfg.maxBlocks ∧ c.maxblocks ≤ cfg.maxBlocks)
    (hb : b.block ≤ cfg.maxBlocks ∧ b.maxblocks ≤ cfg.maxBlocks) :
    ∀ c ∈ before ++ b :: after, c.block ≤ cfg.maxBlocks ∧ c.maxblocks ≤ cfg.maxBlocks := by
  intro c hc
  simp only [List.mem_append, List.mem_cons] at hc
  rcases hc with hc | rfl | hc
  · exact hothers c (List.mem_append_left _ hc)
  · exact hb
  · exact hothers c (List.mem_append_right _ hc)

/-- One buffer's blocks change, and the population becomes `live'`. -/
theorem Exact.change {malloc : Malloc} {block' : Nat} (hp : Exact ⟨before ++ b :: after, t⟩)
    (hchange : BlockChange malloc b.maxblocks b.block t block' t')
    (hsum : blocks ⟨live', t'⟩ = blocks ⟨before ++ after, t⟩ + block')
    (hfits : malloc.isSome = true → held ⟨live', t'⟩ < sizeModulus)
    (hbounded : block' ≤ cfg.maxBlocks →
      ∀ c ∈ live', c.block ≤ cfg.maxBlocks ∧ c.maxblocks ≤ cfg.maxBlocks) :
    Exact ⟨live', t'⟩ ∧ t'.peak = max t.peak (blocks ⟨live', t'⟩) := by
  obtain ⟨hblock, hmax⟩ := hp.bounded b (by simp)
  have hcfg := cfg.maxBlocks_lt
  have hbefore := blocks_append_cons before b after t t
  have hcurrent : t.current = blocks ⟨before ++ after, t⟩ + b.block := hp.current.trans hbefore
  have hlt := hbefore ▸ hp.blocks_lt
  have hle : malloc.isSome = false → block' ≤ b.block := by
    intro hnone
    cases hchange with
    | same => exact le_rfl
    | grow _ _ hmalloc => rw [hnone] at hmalloc; cases hmalloc
    | release => exact Nat.zero_le _
  have hlt' : blocks ⟨live', t'⟩ < sizeModulus := by
    cases hmalloc : malloc.isSome with
    | true => exact (blocks_le_held _).trans_lt (hfits hmalloc)
    | false =>
        have hless := hle hmalloc
        omega
  have hblock' : block' ≤ cfg.maxBlocks := by
    cases hchange with
    | same => exact hblock
    | grow _ hle _ => exact hle.trans hmax
    | release => exact Nat.zero_le _
  obtain ⟨hcurrent', hpeak⟩ :=
    hchange.exact hcurrent hp.peak (by omega) (by omega) hlt (hsum ▸ hlt')
  rw [hcurrent', ← hsum] at hpeak
  refine ⟨⟨hcurrent'.trans hsum.symm, ?_, hlt', hbounded hblock'⟩, hpeak⟩
  show t'.current ≤ t'.peak
  omega

/-- A new buffer owns nothing. -/
theorem Exact.construct (hp : Exact ⟨before ++ after, t⟩) :
    Exact ⟨before ++ BlockBuffer.new cfg :: after, t⟩ ∧
      t.peak = max t.peak (blocks ⟨before ++ BlockBuffer.new cfg :: after, t⟩) := by
  have hsum : blocks ⟨before ++ BlockBuffer.new cfg :: after, t⟩ = blocks ⟨before ++ after, t⟩ :=
    blocks_append_cons before (BlockBuffer.new cfg) after t t
  have hcurrent : t.current = blocks ⟨before ++ after, t⟩ := hp.current
  have hpeak : t.current ≤ t.peak := hp.peak
  refine ⟨⟨hcurrent.trans hsum.symm, hpeak, hsum ▸ hp.blocks_lt, ?_⟩, ?_⟩
  · exact bounded_append_cons hp.bounded ⟨Nat.zero_le _, le_rfl⟩
  · rw [hsum, ← hcurrent, max_eq_left hpeak]

/-- One step keeps the counters exact, and raises the peak when the sum is above it. -/
theorem Exact.step {l : PopulationAct} (hp : p.Exact) (hstep : PopulationStep p l p') :
    p'.Exact ∧ p'.totals.peak = max p.totals.peak p'.blocks := by
  cases hstep with
  | construct => exact hp.construct
  | @exec before b after t malloc op b' t' hassert hexec hfits =>
      have hchanges : Counted.Changes malloc b t (Counted.exec malloc b t op).2 :=
        Counted.changes_exec op
      rw [hexec] at hchanges
      obtain ⟨hchange, hmaxblocks⟩ := hchanges
      refine hp.change hchange (blocks_append_cons before b' after t' t) hfits fun hblock => ?_
      refine bounded_append_cons (fun c => hp.others) ⟨hblock, ?_⟩
      exact hmaxblocks ▸ (hp.bounded b (by simp)).2
  | @setMaxBlocks before b after t maxBlocks =>
      have hsame : BlockChange none b.maxblocks b.block t b.block t := .same
      refine hp.change hsame
        (blocks_append_cons before (b.setMaxBlocks maxBlocks) after t t) nofun fun hblock => ?_
      refine bounded_append_cons (fun c => hp.others) ⟨hblock, ?_⟩
      rw [maxblocks_setMaxBlocks]
      exact Nat.min_le_right _ _
  | @destroy before b after t =>
      have hchanges : Counted.Changes none b t (Counted.free b t) :=
        Counted.changes_free b rfl rfl
      have hfree : (Counted.free b t).1.block = 0 := by
        rw [Counted.free_eq, free_block]
      refine hp.change hchanges.1 ?_ nofun fun _ c => hp.others
      rw [hfree]
      rfl

/-- **The block counters are exact.**  In every run of a population the current total is
the sum of the blocks of the live buffers, from which no destructor can take more than
there is, and the peak is the greatest value which this sum has had. -/
theorem totals_exact {past : List (Population cfg × PopulationAct)}
    (hrun : Run PopulationStep start past p) :
    p.totals.current = p.blocks ∧ (∀ b ∈ p.live, b.block ≤ p.totals.current) ∧
      IsGreatest (blocks '' visited past p) p.totals.peak := by
  have hkeep : ∀ (s : Population cfg) l s', s.Exact → PopulationStep s l s' → s'.Exact :=
    fun _ _ _ hs hstep => (hs.step hstep).1
  have hexact := hrun.inv exact_start hkeep
  refine ⟨hexact.current, fun b hb => ?_, ?_⟩
  · rw [hexact.current]
    exact List.single_le_sum (fun _ _ => Nat.zero_le _) _ (List.mem_map_of_mem hb)
  · exact hrun.isGreatest blocks (fun p => p.totals.peak) exact_start rfl hkeep
      fun _ _ _ hs hstep => (hs.step hstep).2

/-- The theorem after a buffer has been given a block and was destroyed. -/
theorem totals_exact_block :
    ∃ past, ∃ p : Population smallConfig, Run PopulationStep start past p ∧
      p.totals.current = 0 ∧ IsGreatest (blocks '' visited past p) 1 := by
  have hconstruct := @PopulationStep.construct smallConfig [] [] ⟨0, 0⟩
  have happend := @PopulationStep.exec smallConfig [] (BlockBuffer.new smallConfig) [] ⟨0, 0⟩
    (some fun _ => 7) (.append [1, 2, 3]) _ _ trivial rfl (by
      intro _
      decide)
  have hdestroy := @PopulationStep.destroy smallConfig []
    (Counted.exec (some fun _ => 7) (BlockBuffer.new smallConfig) ⟨0, 0⟩
      (.append [1, 2, 3])).2.1 []
    (Counted.exec (some fun _ => 7) (BlockBuffer.new smallConfig) ⟨0, 0⟩
      (.append [1, 2, 3])).2.2
  have hrun := ((Run.start.snoc hconstruct).snoc happend).snoc hdestroy
  obtain ⟨-, -, hpeak⟩ := totals_exact hrun
  exact ⟨_, _, hrun, by decide, hpeak⟩

end Population

end Net
end Deps
