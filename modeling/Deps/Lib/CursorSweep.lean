import Deps.Lib.OrderedMap
import Mathlib.Data.List.Chain

/-!
# Sweeps with a cursor

A sweep visits the entries of a map in batches: at most `n` entries above a cursor,
which then moves to the last of them, or back to 0 when there are no more.  Between two
batches the map may change in any way.  `Covers.mem_batch` bounds the number of batches
until an entry which stays is visited; `batch_eq_batch_iff` says when the cursor matters.
-/

namespace Deps
namespace CursorSweep

variable {β : Type} {n : Nat} {c c' : Int} {m : OrderedMap KeyOrder.int β} {e : Int × β}

/-- The entries which are visited. -/
def batch (n : Nat) (c : Int) (m : OrderedMap KeyOrder.int β) : List (Int × β) :=
  (m.above c).take n

/-- Where the cursor is afterwards. -/
def next (n : Nat) (c : Int) (m : OrderedMap KeyOrder.int β) : Int :=
  if (m.above c).length ≤ n then 0 else ((batch n c m).getLast?.map Prod.fst).getD c

theorem mem_above : e ∈ m.above c ↔ e ∈ m.entries ∧ c < e.1 := by
  rw [OrderedMap.above, List.mem_filter]
  simp [KeyOrder.int]

theorem above_sorted (c : Int) (m : OrderedMap KeyOrder.int β) :
    (m.above c).Pairwise fun a b => a.1 < b.1 :=
  (m.sorted.filter _).imp fun hlt => of_decide_eq_true hlt

/-! ## The cursor -/

/-- Ascending keys above `c` are at least one apart. -/
theorem add_length_le_of_getLast? {l : List (Int × β)} (hsorted : l.Pairwise fun a b => a.1 < b.1)
    (habove : ∀ a ∈ l, c < a.1) (hlast : l.getLast? = some e) : c + l.length ≤ e.1 := by
  induction l generalizing c with
  | nil => cases hlast
  | cons a rest ih =>
      have ha := habove a List.mem_cons_self
      obtain ⟨hhead, htail⟩ := List.pairwise_cons.mp hsorted
      cases rest with
      | nil =>
          rw [List.getLast?_singleton] at hlast
          cases hlast
          simp only [List.length_cons, List.length_nil]
          omega
      | cons b rest =>
          rw [List.getLast?_cons_cons] at hlast
          have hrest := ih htail hhead hlast
          rw [List.length_cons]
          omega

theorem next_of_end (hend : (m.above c).length ≤ n) : next n c m = 0 := if_pos hend

/-- As long as entries are left the cursor is at the last one of a full batch. -/
theorem next_of_more (hn : 0 < n) (hmore : n < (m.above c).length) :
    ∃ e ∈ batch n c m, next n c m = e.1 ∧ c + n ≤ e.1 := by
  have hlen : (batch n c m).length = n := by
    rw [batch, List.length_take]
    omega
  obtain ⟨e, he⟩ : ∃ e, (batch n c m).getLast? = some e := by
    rw [← Option.isSome_iff_exists, List.getLast?_isSome, ← List.length_pos_iff, hlen]
    exact hn
  have hsorted : (batch n c m).Pairwise fun a b => a.1 < b.1 := (above_sorted c m).take
  have habove : ∀ a ∈ batch n c m, c < a.1 :=
    fun a ha => (mem_above.mp (List.mem_of_mem_take ha)).2
  refine ⟨e, List.mem_of_getLast? he, ?_, hlen ▸ add_length_le_of_getLast? hsorted habove he⟩
  rw [next, if_neg (by omega), he]
  rfl

/-- An entry above the cursor which is not visited is above the whole batch. -/
theorem lt_of_notMem_batch (he : e ∈ m.above c) (hnot : e ∉ batch n c m) :
    n < (m.above c).length ∧ ∀ a ∈ batch n c m, a.1 < e.1 := by
  have hdrop : e ∈ (m.above c).drop n := by
    rw [← List.take_append_drop n (m.above c), List.mem_append] at he
    exact he.resolve_left hnot
  refine ⟨?_, fun a ha => ?_⟩
  · have hpos := List.length_pos_of_mem hdrop
    rw [List.length_drop] at hpos
    omega
  · have hsorted := above_sorted c m
    rw [← List.take_append_drop n (m.above c)] at hsorted
    exact (List.pairwise_append.mp hsorted).2.2 a ha e hdrop

theorem next_bounds {M : Int} (hn : 0 < n) (hc : 0 ≤ c) (hM : 0 ≤ M)
    (hkeys : ∀ a ∈ m.entries, a.1 ≤ M) : 0 ≤ next n c m ∧ next n c m ≤ M := by
  rcases Nat.lt_or_ge n (m.above c).length with hmore | hend
  · obtain ⟨e, he, hnext, hle⟩ := next_of_more hn hmore
    have hM := hkeys e (mem_above.mp (List.mem_of_mem_take he)).1
    omega
  · rw [next_of_end hend]
    exact ⟨le_rfl, hM⟩

/-! ## Progress -/

/-- A bound on the number of batches until the key `f` is visited, when no key is above
`M`: those up to `f`, after those up to the end where the cursor has passed `f`. -/
def due (n : Nat) (M f c : Int) : Int :=
  if c < f then (f - 1 - c) / n + 1 else (M - c) / n + (f - 1) / n + 2

theorem ediv_add_one_le {x y : Int} (hn : 0 < n) (hle : x + n ≤ y) : x / n + 1 ≤ y / n := by
  have hne : (n : Int) ≠ 0 := by omega
  have hstep : (x + 1 * n) / n = x / n + 1 := Int.add_mul_ediv_right x 1 hne
  rw [← hstep, Int.one_mul]
  exact Int.ediv_le_ediv (by omega) hle

theorem due_pos {M f : Int} (hf : 0 < f) (hc : c ≤ M) : 1 ≤ due n M f c := by
  have hn : (0 : Int) ≤ n := Int.natCast_nonneg n
  unfold due
  split
  · have hwait := Int.ediv_nonneg (by omega : 0 ≤ f - 1 - c) hn
    omega
  · have hend := Int.ediv_nonneg (by omega : 0 ≤ M - c) hn
    have hstart := Int.ediv_nonneg (by omega : 0 ≤ f - 1) hn
    omega

theorem due_le {M f : Int} (hf : f ≤ M) (hc : 0 ≤ c) : due n M f c ≤ 2 * (M / n) + 2 := by
  have hn : (0 : Int) ≤ n := Int.natCast_nonneg n
  have hquot : ∀ x ≤ M, x / n ≤ M / n := by
    intro x hx
    rcases Nat.eq_zero_or_pos n with hzero | hpos
    · rw [hzero]
      simp
    · exact Int.ediv_le_ediv (by omega) hx
  have hstart := hquot (f - 1) (by omega)
  unfold due
  split
  · next hlt =>
    have hwait := hquot (f - 1 - c) (by omega)
    have hM := Int.ediv_nonneg (by omega : 0 ≤ M) hn
    omega
  · have hend := hquot (M - c) (by omega)
    omega

/-- One batch which does not visit the key brings it closer. -/
theorem due_next {M : Int} (hn : 0 < n) (hc : c ≤ M) (he : e ∈ m.entries) (hpos : 0 < e.1)
    (hnot : e ∉ batch n c m) :
    due n M e.1 (next n c m) + 1 ≤ due n M e.1 c := by
  by_cases hlt : c < e.1
  · obtain ⟨hmore, hbelow⟩ := lt_of_notMem_batch (mem_above.mpr ⟨he, hlt⟩) hnot
    obtain ⟨a, ha, hnext, hle⟩ := next_of_more hn hmore
    have hcloser := ediv_add_one_le (x := e.1 - 1 - a.1) (y := e.1 - 1 - c) hn (by omega)
    unfold due
    rw [hnext, if_pos (hbelow a ha), if_pos hlt]
    omega
  -- the cursor has passed the key
  · rcases Nat.lt_or_ge n (m.above c).length with hmore | hend
    · obtain ⟨a, ha, hnext, hle⟩ := next_of_more hn hmore
      have hcloser := ediv_add_one_le (x := M - a.1) (y := M - c) hn (by omega)
      unfold due
      rw [hnext, if_neg (by omega), if_neg hlt]
      omega
    · have hleft := Int.ediv_nonneg (by omega : 0 ≤ M - c) (Int.natCast_nonneg n)
      unfold due
      rw [next_of_end hend, if_pos hpos, if_neg hlt, Int.sub_zero]
      omega

/-- Consecutive batches, each with the cursor and the map it meets. -/
abbrev Sweeps (n : Nat) (sweeps : List (Int × OrderedMap KeyOrder.int β)) : Prop :=
  sweeps.IsChain fun a b => b.1 = next n a.1 a.2

theorem Sweeps.bounds {M : Int} {sweeps : List (Int × OrderedMap KeyOrder.int β)}
    (hsweeps : Sweeps n sweeps) (hn : 0 < n) (hM : 0 ≤ M)
    (hstart : ∀ a ∈ sweeps.head?, 0 ≤ a.1 ∧ a.1 ≤ M)
    (hkeys : ∀ a ∈ sweeps, ∀ e ∈ a.2.entries, e.1 ≤ M) : ∀ a ∈ sweeps, 0 ≤ a.1 ∧ a.1 ≤ M := by
  induction hsweeps with
  | nil => exact List.forall_mem_nil _
  | singleton a => simpa using hstart a rfl
  | @cons_cons a b rest hnext hrest ih =>
      have ha := hstart a rfl
      obtain ⟨hkeysa, hkeysrest⟩ := List.forall_mem_cons.mp hkeys
      refine List.forall_mem_cons.mpr ⟨ha, ih ?_ hkeysrest⟩
      rintro _ ⟨⟩
      rw [hnext]
      exact next_bounds hn ha.1 hM hkeysa

/-- An entry is left out by fewer batches than are due. -/
theorem Sweeps.length_lt_due {M : Int} {sweeps : List (Int × OrderedMap KeyOrder.int β)}
    (hsweeps : Sweeps n sweeps) (hn : 0 < n) (hbounds : ∀ a ∈ sweeps, 0 ≤ a.1 ∧ a.1 ≤ M)
    (hkeys : ∀ a ∈ sweeps, ∀ e ∈ a.2.entries, e.1 ≤ M)
    (he : ∀ a ∈ sweeps, e ∈ a.2.entries) (hpos : 0 < e.1)
    (hnot : ∀ a ∈ sweeps, e ∉ batch n a.1 a.2) :
    ∀ a ∈ sweeps.head?, (sweeps.length : Int) < due n M e.1 a.1 := by
  induction hsweeps with
  | nil => exact nofun
  | singleton a =>
      rintro _ ⟨⟩
      obtain ⟨hbound, -⟩ := List.forall_mem_cons.mp hbounds
      obtain ⟨hmem, -⟩ := List.forall_mem_cons.mp he
      obtain ⟨hskip, -⟩ := List.forall_mem_cons.mp hnot
      obtain ⟨hbelow, -⟩ := List.forall_mem_cons.mp hkeys
      have hcloser := due_next hn hbound.2 hmem hpos hskip
      have hlater := next_bounds hn hbound.1 (hbound.1.trans hbound.2) hbelow
      have hdue := due_pos (n := n) hpos hlater.2
      rw [List.length_singleton]
      omega
  | @cons_cons a b rest hnext hrest ih =>
      rintro _ ⟨⟩
      obtain ⟨hbound, hbounds⟩ := List.forall_mem_cons.mp hbounds
      obtain ⟨hmem, he⟩ := List.forall_mem_cons.mp he
      obtain ⟨hskip, hnot⟩ := List.forall_mem_cons.mp hnot
      have hlater := ih hbounds (List.forall_mem_cons.mp hkeys).2 he hnot b rfl
      have hcloser := due_next hn hbound.2 hmem hpos hskip
      rw [← hnext] at hcloser
      rw [List.length_cons]
      omega

/-- An entry which stays in the map is visited by one of `2 * (M / n) + 2` batches. -/
theorem Sweeps.mem_batch {M : Int} {sweeps : List (Int × OrderedMap KeyOrder.int β)}
    (hsweeps : Sweeps n sweeps) (hn : 0 < n) (hM : 0 ≤ M)
    (hbounds : ∀ a ∈ sweeps, 0 ≤ a.1 ∧ a.1 ≤ M)
    (hkeys : ∀ a ∈ sweeps, ∀ e ∈ a.2.entries, e.1 ≤ M)
    (he : ∀ a ∈ sweeps, e ∈ a.2.entries) (hpos : 0 < e.1)
    (hlen : 2 * (M / n) + 2 ≤ sweeps.length) : ∃ a ∈ sweeps, e ∈ batch n a.1 a.2 := by
  by_contra hnone
  have hnot : ∀ a ∈ sweeps, e ∉ batch n a.1 a.2 := fun a ha hmem => hnone ⟨a, ha, hmem⟩
  have hleft := hsweeps.length_lt_due hn hbounds hkeys he hpos hnot
  cases sweeps with
  | nil =>
      have hquot := Int.ediv_nonneg hM (Int.natCast_nonneg n)
      simp only [List.length_nil] at hlen
      omega
  | cons a rest =>
      have hlt := hleft a rfl
      have hf := hkeys a List.mem_cons_self e (he a List.mem_cons_self)
      have hdue := due_le (n := n) hf (hbounds a List.mem_cons_self).1
      omega

/-! ## Two cursors -/

theorem above_of_gap (hle : c ≤ c') (hnone : ∀ e ∈ m.entries, ¬(c < e.1 ∧ e.1 ≤ c')) :
    m.above c' = m.above c := by
  refine List.filter_congr fun e he => ?_
  have hgap := hnone e he
  show decide (c' < e.1) = decide (c < e.1)
  rw [decide_eq_decide]
  omega

/-- The same entries are visited from two cursors if and only if none lies between them. -/
theorem batch_eq_batch_iff (hn : 0 < n) :
    batch n c m = batch n c' m ↔ ∀ e ∈ m.entries, ¬(min c c' < e.1 ∧ e.1 ≤ max c c') := by
  -- of two cursors the lower one visits what is between them first
  have hlower : ∀ {c c' : Int}, c ≤ c' →
      (batch n c m = batch n c' m ↔ ∀ e ∈ m.entries, ¬(c < e.1 ∧ e.1 ≤ c')) := by
    intro c c' hle
    constructor
    · intro hsame e he hbetween
      cases habove : m.above c with
      | nil =>
          have hmem := mem_above.mpr ⟨he, hbetween.1⟩
          rw [habove] at hmem
          cases hmem
      | cons a rest =>
          have hfirst : a ∈ batch n c m := by
            rw [batch, habove, List.mem_take_iff_getElem]
            exact ⟨0, by simp only [List.length_cons]; omega, rfl⟩
          rw [hsame] at hfirst
          have ha := (mem_above.mp (List.mem_of_mem_take hfirst)).2
          have hsorted := above_sorted c m
          rw [habove] at hsorted
          have hmem := mem_above.mpr ⟨he, hbetween.1⟩
          rw [habove, List.mem_cons] at hmem
          rcases hmem with rfl | hmem
          · omega
          · have hlt := (List.pairwise_cons.mp hsorted).1 e hmem
            omega
    · intro hnone
      rw [batch, batch, above_of_gap hle hnone]
  rcases Int.le_total c c' with hle | hle
  · rw [hlower hle, Int.min_eq_left hle, Int.max_eq_right hle]
  · rw [eq_comm, hlower hle, Int.min_eq_right hle, Int.max_eq_left hle]

end CursorSweep
end Deps
