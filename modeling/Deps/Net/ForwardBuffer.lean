import Deps.Net.BlockBufferPromises

/-!
# `ForwardBuffer`

The view of `net/blockbuffer.h` which puts off what is erased at the front of a
buffer until the view is destroyed.  `Agrees` relates a view to the buffer to which the
same erasures were applied at once.
-/

namespace Deps
namespace Net

open BlockBuffer

/-- A view which has not been released. -/
structure ForwardBuffer (cfg : BlockConfig) where
  sb : BlockBuffer cfg
  pos : Nat

namespace ForwardBuffer

variable {cfg : BlockConfig}

/-- The constructor. -/
def new (sb : BlockBuffer cfg) : ForwardBuffer cfg := ⟨sb, 0⟩

/-- The bytes behind `data()`. -/
def data (f : ForwardBuffer cfg) : List UInt8 := f.sb.storage.drop f.pos

def size (f : ForwardBuffer cfg) : Nat := sizeSub f.sb.size f.pos

def empty (f : ForwardBuffer cfg) : Bool := f.sb.size == f.pos

/-- The bytes `data()[0 .. size())`. -/
def view (f : ForwardBuffer cfg) : List UInt8 := Region.view f.data f.size

def erase (f : ForwardBuffer cfg) (pos n : Nat) : ForwardBuffer cfg :=
  if pos = 0 then { f with pos := f.pos + n }
  else { f with sb := f.sb.erase (f.pos + pos) n false }

/-- The destructor, which leaves the underlying buffer. -/
def destroy (f : ForwardBuffer cfg) : BlockBuffer cfg := f.sb.erase 0 f.pos false

/-- The arguments `pos` and `n` of one call of `erase`. -/
abbrev Erasure := Nat × Nat

/-- Erase through the view. -/
def eraseAll (f : ForwardBuffer cfg) (es : List Erasure) : ForwardBuffer cfg :=
  es.foldl (fun f e => f.erase e.1 e.2) f

/-- Erase in the buffer itself. -/
def eraseDirectly (b : BlockBuffer cfg) (es : List Erasure) : BlockBuffer cfg :=
  es.foldl (fun b e => b.erase e.1 e.2 false) b

/-- Every call stays inside of the view which it meets. -/
def Allowed (f : ForwardBuffer cfg) : List Erasure → Prop
  | [] => True
  | e :: es => e.1 ≤ f.size ∧ (e.1 = 0 → e.2 ≤ f.size) ∧ Allowed (f.erase e.1 e.2) es

end ForwardBuffer

namespace BlockBuffer

variable {cfg : BlockConfig} {b : BlockBuffer cfg}

/-- `erase` gives the blocks back when nothing is left, and otherwise keeps them. -/
theorem erase_block (b : BlockBuffer cfg) (pos n : Nat) :
    (b.erase pos n false).block = if (b.erase pos n false).size = 0 then 0 else b.block := by
  have hrelease : ∀ b' : BlockBuffer cfg, b'.block = b.block →
      (if b'.empty && !false then b'.free else b').block =
        if (if b'.empty && !false then b'.free else b').size = 0 then 0 else b.block := by
    intro b' hblock
    by_cases hempty : b'.size = 0
    · have hfree : (b'.empty && !false) = true := by simp [BlockBuffer.empty, hempty]
      rw [if_pos hfree, free_block, free_size, if_pos hempty]
    · have hkeep : ¬(b'.empty && !false) = true := by simp [BlockBuffer.empty, hempty]
      rw [if_neg hkeep, if_neg hempty, hblock]
  unfold erase
  apply hrelease
  split <;> rfl

theorem erase_size (hb : b.Inv) {pos : Nat} (hpos : pos ≤ b.size) (n : Nat) :
    (b.erase pos n false).size = b.size - min n (b.size - pos) := by
  obtain ⟨hinv, hcontent, -⟩ := erase_spec hb hpos n false
  rw [← hinv.length_content, hcontent, List.length_append, List.length_take, List.length_drop,
    hb.length_content]
  omega

end BlockBuffer

namespace ForwardBuffer

variable {cfg : BlockConfig} {f : ForwardBuffer cfg} {b d : BlockBuffer cfg}

/-- The view `f` of a buffer shows what the buffer `d` holds. -/
structure Agrees (f : ForwardBuffer cfg) (d : BlockBuffer cfg) : Prop where
  inv : f.sb.Inv
  direct : d.Inv
  /-- the assertion of `ForwardBuffer::erase` -/
  pos_le : f.pos ≤ f.sb.size
  content : f.sb.content.drop f.pos = d.content
  /-- the buffer which is erased at once keeps its blocks as long as it holds something -/
  block : d.size ≠ 0 → d.block = f.sb.block

theorem agrees_new (hb : b.Inv) : Agrees (new b) b where
  inv := hb
  direct := hb
  pos_le := Nat.zero_le _
  content := rfl
  block _ := rfl

namespace Agrees

theorem size_eq_sub (h : Agrees f d) : f.size = f.sb.size - f.pos :=
  sizeSub_eq_sub h.pos_le h.inv.size_lt

theorem size_eq (h : Agrees f d) : f.size = d.size := by
  rw [h.size_eq_sub, ← h.direct.length_content, ← h.content, List.length_drop,
    h.inv.length_content]

theorem view_eq (h : Agrees f d) : f.view = d.content := by
  rw [← h.content, view, h.size_eq_sub, data, Region.view, BlockBuffer.content, Region.view,
    List.drop_take]

/-- What the erasure does in the buffer below: at the front nothing, and behind it the
same as in the buffer which is erased at once. -/
theorem erase (h : Agrees f d) {pos n : Nat} (hpos : pos ≤ f.size) (hn : pos = 0 → n ≤ f.size) :
    Agrees (f.erase pos n) (d.erase pos n false) := by
  have hsize := h.size_eq
  have hsub := h.size_eq_sub
  have hposle := h.pos_le
  obtain ⟨hdirect, hcontent, -⟩ := erase_spec h.direct (show pos ≤ d.size by omega) n false
  have hblock := d.erase_block pos n
  have hleft := erase_size h.direct (show pos ≤ d.size by omega) n
  unfold ForwardBuffer.erase
  split
  · next hfront =>
    subst hfront
    have hnle := hn rfl
    refine ⟨h.inv, hdirect, ?_, ?_, ?_⟩
    · show f.pos + n ≤ f.sb.size
      omega
    · show f.sb.content.drop (f.pos + n) = (d.erase 0 n false).content
      rw [hcontent, ← List.drop_drop, h.content, List.take_zero, Nat.zero_add, List.nil_append]
    · intro hsome
      rw [hblock, if_neg hsome]
      exact h.block (by omega)
  · next hmiddle =>
    have hlen := h.inv.length_content
    have hbelow : f.pos + pos ≤ f.sb.size := by omega
    obtain ⟨hinv, hcontent', -⟩ := erase_spec h.inv hbelow n false
    have hblock' := f.sb.erase_block (f.pos + pos) n
    have hleft' := erase_size h.inv hbelow n
    refine ⟨hinv, hdirect, ?_, ?_, ?_⟩
    · show f.pos ≤ (f.sb.erase (f.pos + pos) n false).size
      omega
    · show (f.sb.erase (f.pos + pos) n false).content.drop f.pos = (d.erase pos n false).content
      rw [hcontent, hcontent', ← h.content, List.drop_append_of_le_length, List.drop_take,
        List.drop_drop, Nat.add_sub_cancel_left, Nat.add_assoc]
      rw [List.length_take, hlen]
      omega
    -- behind the front something is left, so the buffer below is not released
    · intro hsome
      rw [hblock, if_neg hsome, hblock', if_neg (by omega)]
      exact h.block (by omega)

theorem destroy_content (h : Agrees f d) : f.destroy.content = d.content := by
  obtain ⟨-, hcontent, -⟩ := erase_spec h.inv (Nat.zero_le _) f.pos false
  rw [destroy, hcontent, List.take_zero, Nat.zero_add, h.content, List.nil_append]

theorem destroy_size (h : Agrees f d) : f.destroy.size = d.size := by
  rw [destroy, size_erase_front, ← h.size_eq, h.size_eq_sub]

/-- The destructor releases a buffer in which nothing is left. -/
theorem destroy_block (h : Agrees f d) :
    f.destroy.block = if d.size = 0 then 0 else f.sb.block := by
  rw [← h.destroy_size]
  exact f.sb.erase_block 0 f.pos

theorem destroy_capacity_of_empty (h : Agrees f d) (hempty : d.size = 0) :
    f.destroy.capacity = 0 := by
  rw [capacity, h.destroy_block, if_pos hempty, Nat.zero_mul]

theorem destroy_capacity_iff (h : Agrees f d) :
    f.destroy.capacity = d.capacity ↔ d.size ≠ 0 ∨ d.block = 0 := by
  have hpos := cfg.requestedSize_pos
  have hblock := h.destroy_block
  unfold capacity
  rw [Nat.mul_left_inj hpos.ne', hblock]
  split
  · next hempty =>
    constructor
    · intro hzero
      exact .inr hzero.symm
    · rintro (hsome | hzero)
      · exact absurd hempty hsome
      · exact hzero.symm
  · next hsome => exact iff_of_true (h.block hsome).symm (.inl hsome)

end Agrees

/-! ## Sequences of erasures -/

theorem allowed_take {es : List Erasure} (hes : Allowed f es) (k : Nat) :
    Allowed f (es.take k) := by
  induction es generalizing f k with
  | nil => simp [Allowed]
  | cons e es ih =>
      obtain ⟨hpos, hn, hrest⟩ := hes
      cases k with
      | zero => trivial
      | succ k => exact ⟨hpos, hn, ih hrest k⟩

theorem agrees_eraseAll (h : Agrees f d) {es : List Erasure} (hes : Allowed f es) :
    Agrees (f.eraseAll es) (eraseDirectly d es) := by
  induction es generalizing f d with
  | nil => exact h
  | cons e es ih =>
      obtain ⟨hpos, hn, hrest⟩ := hes
      exact ih (h.erase hpos hn) hrest

/-- After one erasure an empty buffer owns nothing. -/
theorem block_eraseDirectly (h : Agrees f d) {es : List Erasure} (hes : Allowed f es)
    (hne : es ≠ []) (hempty : (eraseDirectly d es).size = 0) :
    (eraseDirectly d es).block = 0 := by
  induction es generalizing f d with
  | nil => exact absurd rfl hne
  | cons e es ih =>
      obtain ⟨hpos, hn, hrest⟩ := hes
      cases es with
      | nil =>
          have hblock := d.erase_block e.1 e.2
          have hzero : (d.erase e.1 e.2 false).size = 0 := hempty
          rw [if_pos hzero] at hblock
          exact hblock
      | cons e' es => exact ih (h.erase hpos hn) hrest (List.cons_ne_nil _ _) hempty

/-- **`ForwardBuffer` is exact.**  After any of the erasures the view shows what the
buffer would hold, and the destructor leaves a buffer with this content and size.  The
capacity is the same too, except where an empty buffer which owns blocks was viewed and
nothing was erased: then the destructor releases the blocks, and the capacity is 0. -/
theorem forwardBuffer_exact (hb : Attained cfg b) {es : List Erasure} (hes : Allowed (new b) es) :
    (∀ k, ((new b).eraseAll (es.take k)).view = (eraseDirectly b (es.take k)).content ∧
      ((new b).eraseAll (es.take k)).size = (eraseDirectly b (es.take k)).size) ∧
    ((new b).eraseAll es).destroy.content = (eraseDirectly b es).content ∧
    ((new b).eraseAll es).destroy.size = (eraseDirectly b es).size ∧
    (((new b).eraseAll es).destroy.capacity = (eraseDirectly b es).capacity ↔
      es ≠ [] ∨ b.size ≠ 0 ∨ b.block = 0) ∧
    (es = [] → b.size = 0 → ((new b).eraseAll es).destroy.capacity = 0) := by
  have hnew := agrees_new hb.inv
  have hagrees := agrees_eraseAll hnew hes
  refine ⟨fun k => ?_, hagrees.destroy_content, hagrees.destroy_size, ?_, ?_⟩
  · have hstep := agrees_eraseAll hnew (allowed_take hes k)
    exact ⟨hstep.view_eq, hstep.size_eq⟩
  · rw [hagrees.destroy_capacity_iff]
    by_cases hne : es = []
    · subst hne
      simp [eraseDirectly]
    · refine iff_of_true ?_ (.inl hne)
      by_cases hempty : (eraseDirectly b es).size = 0
      · exact .inr (block_eraseDirectly hnew hes hne hempty)
      · exact .inl hempty
  · rintro rfl hempty
    exact hagrees.destroy_capacity_of_empty hempty

/-- An empty buffer for eight bytes loses its storage to a view which nobody used. -/
theorem unused_view_releases :
    ∃ b, Attained smallConfig b ∧
      (new b).destroy.capacity = 0 ∧ (eraseDirectly b []).capacity = 8 := by
  have hattained : Attained smallConfig
      (Op.exec (some fun _ => 7) (BlockBuffer.new smallConfig) (.reserve 8)).2 :=
    .step (some fun _ => 7) (.reserve 8) .new trivial
  exact ⟨_, hattained, by decide, by decide⟩

/-- The theorem at three bytes: one is erased in the middle, and one at the front. -/
theorem forwardBuffer_exact_three :
    ((new (Op.exec (some fun _ => 7) (BlockBuffer.new smallConfig)
      (.append [1, 2, 3])).2).eraseAll [(1, 1), (0, 1)]).destroy.content = [3] := by
  have hallowed : Allowed (new (Op.exec (some fun _ => 7) (BlockBuffer.new smallConfig)
      (.append [1, 2, 3])).2) [(1, 1), (0, 1)] := by
    simp only [Allowed]
    decide
  have hexact := forwardBuffer_exact attained_three hallowed
  exact hexact.2.1

end ForwardBuffer
end Net
end Deps
