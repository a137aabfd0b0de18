import Mathlib.Data.List.Basic
import Mathlib.Tactic

/-!
# Flat storage regions

A region is a finite block of cells, represented by the list of its cells.
`Region.write` is the effect of copying a run of cells to an offset, the way
`memcpy` and `memmove` do; `Region.view` is the prefix which a size counter
declares to be live.  The lemmas say how each write changes the live prefix.
Nothing here bounds a write: a write past the end makes the region longer, so
`Region.length_write` is also the proof obligation that a write is in bounds.
-/

namespace Deps
namespace Region

variable {α : Type*}

/-- Overwrite the cells starting at `pos` by `cells`. -/
def write (region : List α) (pos : Nat) (cells : List α) : List α :=
  region.take pos ++ cells ++ region.drop (pos + cells.length)

/-- The live prefix of a region: its first `size` cells. -/
def view (region : List α) (size : Nat) : List α :=
  region.take size

/-- An in-bounds write keeps the length of the region. -/
theorem length_write {region cells : List α} {pos : Nat}
    (h : pos + cells.length ≤ region.length) :
    (write region pos cells).length = region.length := by
  simp [write]
  omega

theorem length_view {region : List α} {size : Nat} (h : size ≤ region.length) :
    (view region size).length = size := by
  simpa [view] using h

/-- The cells read back from the written range are the written ones. -/
theorem view_write_end {region cells : List α} {pos : Nat} (h : pos ≤ region.length) :
    view (write region pos cells) (pos + cells.length) = view region pos ++ cells := by
  have hlen : (region.take pos ++ cells).length = pos + cells.length := by
    simp [Nat.min_eq_left h]
  rw [view, write, ← hlen, List.take_left]
  rfl

/-- A write below the live size replaces a slice of the live prefix. -/
theorem view_write_inside {region cells : List α} {pos size : Nat}
    (hin : pos + cells.length ≤ size) (hsize : size ≤ region.length) :
    view (write region pos cells) size =
      view region pos ++ cells ++ (view region size).drop (pos + cells.length) := by
  have hpos : pos ≤ region.length := by omega
  have hlen : (region.take pos ++ cells).length = pos + cells.length := by
    simp [Nat.min_eq_left hpos]
  obtain ⟨rest, rfl⟩ := Nat.exists_eq_add_of_le hin
  rw [view, write, view, view, ← hlen, List.take_append, hlen]
  simp only [Nat.add_sub_cancel_left]
  rw [List.take_of_length_le (by omega), List.drop_take]
  simp

/-- A write behind the live size does not change the live prefix. -/
theorem view_write_after {region cells : List α} {pos size : Nat} (hpos : size ≤ pos)
    (hsize : size ≤ region.length) : view (write region pos cells) size = view region size := by
  have hle : size ≤ (region.take pos).length := by
    rw [List.length_take]
    omega
  rw [view, write, List.append_assoc, List.take_append_of_le_length hle, List.take_take,
    Nat.min_eq_left hpos, view]

/-- Shrinking the live size takes a prefix of the live cells. -/
theorem view_view {region : List α} {size size' : Nat} (h : size' ≤ size) :
    view region size' = (view region size).take size' := by
  simp [view, List.take_take, Nat.min_eq_left h]

theorem view_zero (region : List α) : view region 0 = [] := rfl

end Region
end Deps
